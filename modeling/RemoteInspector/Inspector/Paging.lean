import RemoteInspector.Dom.Walk
import RemoteInspector.Protocol.Refusal
/-!
Pages of the nodes a client sees below another: from the first on, from a given one on, or around one.
-/
namespace RemoteInspector

structure PageOptions where
  maxNodes : Nat
  center : Option NodeId := none
  start : Option NodeId := none
  filter : Filter := .all
  deriving DecidableEq, Repr

structure NodePage where
  hasFirst : Bool
  hasLast : Bool
  nodes : List NodeId
  deriving DecidableEq, Repr

namespace NodePage

/-- No limit at all: more than any client counts to. -/
def unlimited : Nat := UInt64.size - 1

def forward (d : Dom) (w : Walk) : Nat → List NodeId
  | 0 => []
  | count + 1 => w.current :: (w.steps d .forward count).1

/-- The nodes around `w`: half the page before it, or more where fewer are left after it. -/
def around (d : Dom) (w : Walk) (maxNodes : Nat) : List NodeId :=
  let (before, edge) := w.steps d .backward (maxNodes / 2)
  let after := forward d w (maxNodes - before.length)
  let (earlier, _) := edge.steps d .backward (maxNodes - before.length - after.length)
  earlier.reverse ++ before.reverse ++ after

def children (d : Dom) (n : NodeId) (o : PageOptions) : Except Refusal NodePage :=
  if o.center.isSome && o.start.isSome then .error .centerAndStart
  else
    let walk := Walk.start d o.filter
    match (walk n).firstChild? d with
    | none => .ok ⟨true, true, []⟩
    | some first =>
      let nodes :=
        match o.center with
        | some center => around d (walk center) o.maxNodes
        | none => forward d (walk (o.start.getD first.current)) o.maxNodes
      .ok ⟨nodes.head? == some first.current,
        nodes.getLast? == ((walk n).lastChild? d).map (·.current), nodes⟩

/-- A page of the nodes beside `n`, around it unless another place is given. -/
def siblings (d : Dom) (n : NodeId) (o : PageOptions) : Except Refusal NodePage :=
  match Walk.visibleParent? d n with
  | none => .ok ⟨true, true, [n]⟩
  | some parent =>
    children d parent
      (if o.start.isNone && o.center.isNone then { o with center := some n } else o)

end NodePage

end RemoteInspector
