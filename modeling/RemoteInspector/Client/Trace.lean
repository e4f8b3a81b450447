import RemoteInspector.Client.EventFront
/-!
Tracers on the side of the client.
-/
namespace RemoteInspector

namespace TraceFront

variable {σ : Type} [Peer σ]

def attach (f : EventFront) : Calling σ (List String) := do
  return (Json.obj (← f.front.call "attach" [])).getStrings "traceTypes"

def detach (f : EventFront) : Calling σ Unit := do
  let _ ← f.front.call "detach" []
  return ()

def nameIn (reply : Fields) : Except ClientError String :=
  match (Fields.get? reply "name").bind Json.string? with
  | some name => .ok name
  | none => .error (.malformed .noTraceName)

/-- Starts a trace; the server names it if nobody else does. -/
def start (f : EventFront) (types : List String) (name : Option String) : Calling σ String := do
  let reply ← f.front.call "startTrace"
    (Front.arguments [("trace", some (.strings types)), ("name", name.map .str)])
  nameIn reply

def stop (f : EventFront) (name : Option String) : Calling σ String := do
  let reply ← f.front.call "stopTrace" (Front.arguments [("name", name.map .str)])
  nameIn reply

end TraceFront

end RemoteInspector
