import RemoteInspector.Client.Error
/-!
Clients: a reply is matched with its request by its number, or, if it carries none, with the oldest
request to its sender. A packet with a type and without a number is an event.
-/
namespace RemoteInspector

abbrev RequestId := Nat

abbrev ChannelId := Nat

structure Channel where
  packets : List Fields := []
  /-- Whether the subscriber still listens. -/
  held : Bool := true
  deriving Repr

structure Client where
  greeting : Fields
  nextRequest : RequestId := 0
  pending : List RequestId := []
  /-- The requests sent to each actor, oldest first. -/
  queues : Table String (List RequestId) := []
  outcomes : Table RequestId (Except ClientError Fields) := []
  subscribers : Table String ChannelId := []
  channels : List Channel := []
  /-- Events nobody subscribed to. -/
  events : List Fields := []
  closed : Bool := false
  deriving Repr

/-- What has become of a request. -/
inductive Fate
  | pending
  | answered (outcome : Except ClientError Fields)
  deriving Repr

namespace Client

def connect : Option Json → Except ClientError Client
  | none => .error .disconnected
  | some (.obj greeting) => .ok { greeting := greeting }
  | some packet => .error (.malformed (.unexpectedGreeting packet))

/-- A client on a stream of bytes, of which it reads the first packet. -/
def ofReading : Framing.Reading → Except ClientError Client
  | .packet packet => connect (some packet)
  | .malformed part => .error (.malformed (.unreadable part))
  | .ended => connect none

def queue (c : Client) (actor : String) : List RequestId := (c.queues.get? actor).getD []

/-- Enters a request: where it goes, and its number. -/
def enter (c : Client) (packet : Fields) : Except ClientError (Client × String × RequestId) :=
  match (packet.get? "to").bind Json.string? with
  | none => .error (.malformed .noDestination)
  | some target =>
    if c.closed then .error .disconnected
    else
      let id := c.nextRequest
      .ok ({ c with
        nextRequest := id + 1
        pending := c.pending ++ [id]
        queues := c.queues.insert target (c.queue target ++ [id]) }, target, id)

/-- Strikes a request to an actor off by its number; whether it was pending. -/
def takePending (c : Client) (actor : String) (id : RequestId) : Client × Bool :=
  ({ c with
    queues := c.queues.modify actor (·.filter (· ≠ id))
    pending := c.pending.filter (· ≠ id) }, c.pending.contains id)

/-- Strikes the oldest request to an actor off, if it is still pending. -/
def takeOldest (c : Client) (actor : String) : Client × Option RequestId :=
  match c.queue actor with
  | [] => (c, none)
  | id :: rest =>
    ({ c with
      queues := c.queues.modify actor fun _ => rest
      pending := c.pending.filter (· ≠ id) }, if c.pending.contains id then some id else none)

/-- A request: the packet to be sent under its number. If the packet cannot be written, the number is
used up and nothing is pending. -/
def request (c : Client) (packet : Fields) (line : Option WriteFailure) :
    Client × Except ClientError (RequestId × Fields) :=
  match c.enter packet with
  | .error e => (c, .error e)
  | .ok (entered, target, id) =>
    match line with
    | none => (entered, .ok (id, packet.insert "requestId" (.nat id)))
    | some failure => ((entered.takePending target id).1, .error (.notWritten failure))

def setChannel (c : Client) (id : ChannelId) (f : Channel → Channel) : Client :=
  { c with channels := c.channels.modify id f }

def channel (c : Client) (id : ChannelId) : Channel := (c.channels[id]?).getD {}

/-- Hands an event over. A subscriber who no longer listens is forgotten, and the event with it. -/
def onEvent (c : Client) (sender : String) (packet : Fields) : Client :=
  match c.subscribers.get? sender with
  | none => { c with events := c.events ++ [packet] }
  | some id =>
    if (c.channel id).held then
      c.setChannel id fun ch => { ch with packets := ch.packets ++ [packet] }
    else { c with subscribers := c.subscribers.erase sender }

def outcomeOf (packet : Fields) : Except ClientError Fields :=
  match (packet.get? "error").bind Json.string? with
  | some error => .error (.protocol error (((packet.get? "message").bind Json.string?).getD ""))
  | none => .ok packet

def answer (c : Client) (id : RequestId) (packet : Fields) : Client :=
  { c with outcomes := c.outcomes.insert id (outcomeOf packet) }

def dispatch (c : Client) (packet : Fields) : Client :=
  let sender := ((packet.get? "from").bind Json.string?).getD ""
  match (packet.get? "requestId").bind Json.natural? with
  | some id =>
    let (c, found) := c.takePending sender id
    if found then c.answer id packet else c
  | none =>
    if packet.contains "type" then c.onEvent sender packet
    else
      let (c, found) := c.takeOldest sender
      found.elim c fun id => c.answer id packet

/-- A packet from the server. What is no object is ignored, and so is all that comes after the end. -/
def receive (c : Client) : Json → Client
  | .obj packet => if c.closed then c else c.dispatch packet
  | _ => c

/-- The connection is gone: nobody waits for anything any more. -/
def close (c : Client) : Client :=
  { c with closed := true, pending := [], queues := [], subscribers := [] }

/-- A request that is no longer pending and has no answer failed with the connection. -/
def fate (c : Client) (id : RequestId) : Fate :=
  match c.outcomes.get? id with
  | some outcome => .answered outcome
  | none => if c.pending.contains id then .pending else .answered (.error .disconnected)

/-! ### Events -/

def subscribe (c : Client) (actor : String) : Client × ChannelId :=
  let id := c.channels.length
  ({ c with subscribers := c.subscribers.insert actor id, channels := c.channels ++ [{}] }, id)

def unsubscribe (c : Client) (actor : String) : Client :=
  { c with subscribers := c.subscribers.erase actor }

def dropChannel (c : Client) (id : ChannelId) : Client := c.setChannel id fun ch => { ch with held := false }

def isFed (c : Client) (id : ChannelId) : Bool := c.subscribers.values.contains id

def setEvents (c : Client) (packets : List Fields) : Client := { c with events := packets }

def setPackets (c : Client) (id : ChannelId) (packets : List Fields) : Client :=
  c.setChannel id fun ch => { ch with packets := packets }

def hasType (type : String) (packet : Fields) : Bool :=
  (packet.get? "type").bind Json.string? == some type

/-- The first event of a type and those behind it; the ones before it are dropped. -/
def seek (type : String) (packets : List Fields) : Option Fields × List Fields :=
  match packets.dropWhile fun p => !hasType type p with
  | [] => (none, [])
  | p :: rest => (some p, rest)

def nextEvent (c : Client) : Client × Option Fields := (c.setEvents c.events.tail, c.events.head?)

def waitEvent (c : Client) (type : String) : Client × Option Fields :=
  let (found, rest) := seek type c.events
  (c.setEvents rest, found)

def nextOn (c : Client) (id : ChannelId) : Client × Option Fields :=
  let packets := (c.channel id).packets
  (c.setPackets id packets.tail, packets.head?)

def waitOn (c : Client) (id : ChannelId) (type : String) : Client × Option Fields :=
  let (found, rest) := seek type (c.channel id).packets
  (c.setPackets id rest, found)

end Client

end RemoteInspector
