import RemoteInspector.Dom.Node
/-!
The documents of a host. Nothing keeps the links consistent or free of cycles, so every climb is
bounded by `reach`, which is enough for any walk that does not run in a circle.
-/
namespace RemoteInspector

namespace Dom

structure Node where
  kind : NodeKind
  name : String := ""
  value : Option String := none
  space : Option String := none
  attrs : List Attribute := []
  doctype : Option Doctype := none
  parent : Option NodeId := none
  children : List NodeId := []
  content : Option NodeId := none
  deriving DecidableEq, Repr

end Dom

structure Dom where
  root : NodeId := 1
  nodes : Table NodeId Dom.Node := []
  deriving DecidableEq, Repr

namespace Dom

def node? (d : Dom) (n : NodeId) : Option Node := d.nodes.get? n

def exists? (d : Dom) (n : NodeId) : Bool := (d.node? n).isSome

/-- More steps than any climb or search of the tree takes that ends. -/
def reach (d : Dom) : Nat := (d.nodes.length + 2) * (d.nodes.length + 2)

def info? (d : Dom) (n : NodeId) : Option NodeInfo :=
  (d.node? n).map fun node =>
    { kind := node.kind, name := node.name, space := node.space, value := node.value,
      numChildren := node.children.length, attrs := node.attrs, doctype := node.doctype }

def isDocument (d : Dom) (n : NodeId) : Bool := (d.info? n).elim false NodeInfo.isDocument

def parent? (d : Dom) (n : NodeId) : Option NodeId := (d.node? n).bind (·.parent)

def children (d : Dom) (n : NodeId) : List NodeId := (d.node? n).elim [] (·.children)

def firstChild? (d : Dom) (n : NodeId) : Option NodeId := (d.children n).head?

def lastChild? (d : Dom) (n : NodeId) : Option NodeId := (d.children n).getLast?

def after? (n : NodeId) : List NodeId → Option NodeId
  | [] => none
  | x :: xs => if x = n then xs.head? else after? n xs

def before? (n : NodeId) : List NodeId → Option NodeId
  | x :: y :: xs => if x = n then none else if y = n then some x else before? n (y :: xs)
  | _ => none

def nextSibling? (d : Dom) (n : NodeId) : Option NodeId :=
  (d.parent? n).bind fun p => after? n (d.children p)

def previousSibling? (d : Dom) (n : NodeId) : Option NodeId :=
  (d.parent? n).bind fun p => before? n (d.children p)

/-- The last node reached by following parents. -/
def top (d : Dom) : Nat → NodeId → NodeId
  | 0, n => n
  | fuel + 1, n =>
    match d.parent? n with
    | some p => top d fuel p
    | none => n

/-- The document at the top of a node's ancestors. Documents themselves have none. -/
def ownerDocument? (d : Dom) (n : NodeId) : Option NodeId :=
  if !d.exists? n || d.isDocument n then none
  else
    let t := d.top d.reach n
    if d.isDocument t then some t else none

/-- The document a node belongs to, which for a document is itself. -/
def documentOf? (d : Dom) (n : NodeId) : Option NodeId :=
  match d.ownerDocument? n with
  | some doc => some doc
  | none => if d.isDocument n then some n else none

def documentElement? (d : Dom) (n : NodeId) : Option NodeId :=
  (d.children n).find? fun c => (d.node? c).elim false (·.kind == NodeKind.element)

def contentDocument? (d : Dom) (n : NodeId) : Option NodeId := (d.node? n).bind (·.content)

/-- The frame that embeds a document; of several, the one of lowest number. -/
def embeddingFrame? (d : Dom) (doc : NodeId) : Option NodeId :=
  (d.nodes.filterMap fun (n, node) => if node.content = some doc then some n else none).min?

def attribute? (d : Dom) (n : NodeId) (name : String) : Option String :=
  (d.node? n).bind fun node => (node.attrs.find? (·.name = name)).map (·.value)

/-- The descendants of a node in document order, not entering frames. -/
def descendants (d : Dom) : Nat → NodeId → List NodeId
  | 0, _ => []
  | fuel + 1, n => (d.children n).flatMap fun c => c :: descendants d fuel c

/-- Whether `n` is `top` or lies below it by the chain of parents. -/
def isWithin (d : Dom) (top : NodeId) : Nat → NodeId → Bool
  | 0, _ => false
  | fuel + 1, n =>
    n == top ||
      match d.parent? n with
      | some p => isWithin d top fuel p
      | none => false

end Dom

end RemoteInspector
