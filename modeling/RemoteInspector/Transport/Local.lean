import RemoteInspector.Json.Basic
/-!
Connections within one process: two ends that hand each other packets. Null is never a packet; it
marks the end of the stream, as does the shutdown of either end.
-/
namespace RemoteInspector

inductive Side
  | client
  | server
  deriving DecidableEq, Repr

structure LocalLink where
  toClient : List Json := []
  toServer : List Json := []
  closed : Bool := false
  clientGone : Bool := false
  serverGone : Bool := false
  deriving Repr

inductive Arrival
  | packet (packet : Json)
  | ended
  /-- Nothing has come yet. -/
  | nothing
  deriving Repr

namespace LocalLink

def gone (l : LocalLink) : Side → Bool
  | .client => l.clientGone
  | .server => l.serverGone

def drop (l : LocalLink) : Side → LocalLink
  | .client => { l with clientGone := true }
  | .server => { l with serverGone := true }

/-- Sends from one end to the other; none if the link is closed or nobody is there. -/
def send? (l : LocalLink) (sender : Side) (packet : Json) : Option LocalLink :=
  match sender with
  | .client => if l.closed || l.serverGone then none else some { l with toServer := l.toServer ++ [packet] }
  | .server => if l.closed || l.clientGone then none else some { l with toClient := l.toClient ++ [packet] }

def incoming (l : LocalLink) : Side → List Json
  | .client => l.toClient
  | .server => l.toServer

def setIncoming (l : LocalLink) (side : Side) (packets : List Json) : LocalLink :=
  match side with
  | .client => { l with toClient := packets }
  | .server => { l with toServer := packets }

def receive (l : LocalLink) (receiver : Side) : LocalLink × Arrival :=
  if l.closed then (l, .ended)
  else
    match l.incoming receiver with
    | [] => (l, .nothing)
    | .null :: rest => (l.setIncoming receiver rest, .ended)
    | packet :: rest => (l.setIncoming receiver rest, .packet packet)

def shutdown (l : LocalLink) : LocalLink := { l with closed := true }

end LocalLink

end RemoteInspector
