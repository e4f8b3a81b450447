import RemoteInspector.Dom.Tree
/-!
Edits of a document and the changes that observers are told of. A change carries no values.
-/
namespace RemoteInspector

namespace Dom

inductive Change
  | attributes (target : NodeId) (name : String) (space : Option String)
  | characterData (target : NodeId)
  | childList (target : NodeId) (added removed : List NodeId)
  deriving DecidableEq, Repr

def Change.target : Change → NodeId
  | .attributes target _ _ => target
  | .characterData target => target
  | .childList target _ _ => target

inductive Edit
  | create (id : NodeId) (node : Node)
  | delete (id : NodeId)
  | frame (id : NodeId) (content : Option NodeId)
  | remove (id : NodeId)
  | insert (id parent : NodeId) (before : Option NodeId)
  | attr (id : NodeId) (name : String) (space value : Option String)
  | text (id : NodeId) (value : Option String)
  | childList (id : NodeId) (added removed : List NodeId)
  deriving DecidableEq, Repr

def update (d : Dom) (n : NodeId) (f : Node → Node) : Dom := { d with nodes := d.nodes.modify n f }

/-- Adds a node without children, last below its parent if that was there before it. -/
def create (d : Dom) (id : NodeId) (node : Node) : Dom :=
  let d := node.parent.elim d fun p =>
    d.update p fun parent => { parent with children := parent.children ++ [id] }
  { d with nodes := d.nodes.insert id { node with children := [] } }

def unlink (d : Dom) (n : NodeId) : Dom :=
  match d.parent? n with
  | some p =>
    (d.update p fun parent => { parent with children := parent.children.filter (· ≠ n) }).update n
      fun node => { node with parent := none }
  | none => d

def detach (d : Dom) (n : NodeId) : Dom × List Change :=
  match d.parent? n with
  | some p => (d.unlink n, [.childList p [] [n]])
  | none => (d, [])

def placed (n : NodeId) (before : Option NodeId) : List NodeId → List NodeId
  | [] => [n]
  | x :: xs => if before = some x then n :: x :: xs else x :: placed n before xs

def link (d : Dom) (n parent : NodeId) (before : Option NodeId) : Dom :=
  (d.update parent fun node => { node with children := placed n before node.children }).update n
    fun node => { node with parent := some parent }

/-- Sets the attribute of that name and namespace, or takes it away. -/
def setAttribute (attrs : List Attribute) (name : String) (space value : Option String) :
    List Attribute :=
  let same (a : Attribute) : Bool := a.name == name && a.space == space
  match value with
  | none => attrs.filter fun a => !same a
  | some v =>
    if attrs.any same then attrs.map fun a => if same a then { a with value := v } else a
    else attrs ++ [⟨space, name, v⟩]

def edit (d : Dom) : Edit → Dom × List Change
  | .create id node => (d.create id node, [])
  | .delete id => ({ d.unlink id with nodes := (d.unlink id).nodes.erase id }, [])
  | .frame id content => (d.update id fun node => { node with content := content }, [])
  | .remove id => d.detach id
  | .insert id parent before =>
    let (d, changes) := d.detach id
    (d.link id parent before, changes ++ [.childList parent [id] []])
  | .attr id name space value =>
    (d.update id fun node => { node with attrs := setAttribute node.attrs name space value },
      [.attributes id name space])
  | .text id value => (d.update id fun node => { node with value := value }, [.characterData id])
  | .childList id added removed => (d, [.childList id added removed])

/-- Gives a node a new value; only text, instructions and comments take one. -/
def setValue? (d : Dom) (n : NodeId) (value : String) : Option Dom :=
  (d.node? n).bind fun node =>
    if node.kind == NodeKind.text || node.kind == NodeKind.instruction ||
        node.kind == NodeKind.comment then
      some (d.update n fun node => { node with value := some value })
    else none

end Dom

end RemoteInspector
