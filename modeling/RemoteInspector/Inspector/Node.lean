import RemoteInspector.Grip.LongString
import RemoteInspector.Inspector.Walker
/-!
Nodes, lists of nodes and the inspector that hands out walkers. The nodes of a list become actors when
the client asks for them, one by one or in a run.
-/
namespace RemoteInspector

namespace Node

def handler (self : String) (actor : NodeActor) (method : String) (packet : Fields) : Handling Unit := do
  let s ← getThe Scene
  match method with
  | "getNodeValue" =>
    let value := (((s.site.dom actor.host).info? actor.node).bind (·.value)).getD ""
    Request.reply self packet [("value", ← LongString.grip self value)]
  | "setNodeValue" =>
    let value ← Walker.textArgument packet "value"
    Act.site (·.setNodeValue s.conn.id actor.host actor.node value)
    Request.reply self packet []
  | _ => throw .unrecognizedPacketType

end Node

namespace NodeList

/-- One node of a list: the names of its new ancestors, and its own. -/
def fetch (walker host : String) (node : NodeId) : Act (List String × String) := do
  let path ← Walker.ensurePath walker host node
  return (path, ← Walker.ref walker host node)

def bound (packet : Fields) (key : String) (length default : Nat) : Nat :=
  ((packet.get? key).bind Json.natural?).elim default (min length)

def run (l : NodeListActor) (packet : Fields) : List NodeId :=
  let first := bound packet "start" l.nodes.length 0
  let last := bound packet "end" l.nodes.length l.nodes.length
  (l.nodes.drop first).take (last - first)

def handler (self : String) (l : NodeListActor) (method : String) (packet : Fields) :
    Handling Unit := do
  match (← getThe Scene).walker? l.walker with
  | none => throw (.noSuchActor l.walker)
  | some w =>
    match method with
    | "item" =>
      let index := ((packet.get? "item").bind Json.natural?).getD (UInt64.size - 1)
      match l.nodes[index]? with
      | none => throw (.indexOutOfRange index l.nodes.length)
      | some node =>
        let (path, name) ← fetch l.walker w.host node
        let form ← Walker.form (some name)
        Request.reply self packet [("node", form), ("newNodes", ← Walker.forms path)]
    | "items" =>
      let found ← ((run l packet).mapM (fetch l.walker w.host) : Act _)
      let nodes ← Walker.forms (found.map Prod.snd)
      Request.reply self packet
        [("nodes", nodes), ("newNodes", ← Walker.forms (found.flatMap Prod.fst))]
    | "release" => Request.reply self packet []
    | _ => throw .unrecognizedPacketType

end NodeList

namespace Inspector

def decide (self : String) (actor : InspectorActor) (method : String) : Decision :=
  match method with
  | "getWalker" => .ok do
      let (walker, form) ← Walker.register self actor.host
      Act.update self fun
        | .inspector i => .inspector { i with walkers := i.walkers ++ [walker] }
        | other => other
      return [("walker", form)]
  | _ => .error .unrecognizedPacketType

/-- The walkers that are still there; the others are forgotten. -/
def walkers (self : String) : Act (List String) := do
  let s ← get
  match (s.find? self).bind Actor.inspector? with
  | none => return []
  | some actor =>
    let alive := actor.walkers.filter s.conn.registry.contains
    Act.update self fun
      | .inspector i => .inspector { i with walkers := alive }
      | other => other
    return alive

end Inspector

end RemoteInspector
