import RemoteInspector.Client.Front
/-!
Fronts with events of their own, which are queued from the moment the front is made until it is
dropped.
-/
namespace RemoteInspector

structure EventFront where
  front : Front
  channel : ChannelId

namespace EventFront

variable {σ : Type} [Peer σ]

def make (actor typeName : String) : Calling σ EventFront := do
  let front ← Front.ofType actor typeName
  return ⟨front, ← Calling.take (·.subscribe actor)⟩

def drop (f : EventFront) (c : Client) : Client := (c.unsubscribe f.front.actor).dropChannel f.channel

def next (f : EventFront) : Calling σ (Option Fields) := Calling.take (·.nextOn f.channel)

def wait (f : EventFront) (type : String) : Calling σ (Option Fields) :=
  Calling.take (·.waitOn f.channel type)

def takeEvents (f : EventFront) (count : Nat) : Calling σ (List Fields) :=
  Calling.take fun c =>
    let packets := (c.channel f.channel).packets
    (c.setPackets f.channel (packets.drop count), packets.take count)

end EventFront

end RemoteInspector
