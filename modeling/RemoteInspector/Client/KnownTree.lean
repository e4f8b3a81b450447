import RemoteInspector.Client.Error
import RemoteInspector.Inspector.Mutation
import RemoteInspector.Inspector.NodeForm
/-!
The client's copy of the part of a document it knows. A node that came only as another's parent is a
stand-in until its own form is read.
-/
namespace RemoteInspector

structure KnownNode where
  form : NodeForm
  standin : Bool := false
  parent : Option String := none
  child : Option String := none
  next : Option String := none
  prev : Option String := none
  deriving DecidableEq, Repr

structure KnownTree where
  nodes : Table String KnownNode := []
  /-- Nodes taken out of the tree, which may come back. -/
  orphans : List String := []
  root : Option String := none
  deriving DecidableEq, Repr

namespace NodeForm

def attribute? (f : NodeForm) (name : String) : Option String :=
  (f.attrs.find? (·.name = name)).map (·.value)

/-- Sets, changes or takes away the first attribute of that name and namespace. -/
def setAttribute (attrs : List Attribute) (name : String) (space value : Option String) :
    List Attribute :=
  match attrs, value with
  | [], some v => [⟨space, name, v⟩]
  | [], none => []
  | a :: rest, some v =>
    if a.name = name ∧ a.space = space then { a with value := v } :: rest
    else a :: setAttribute rest name space value
  | a :: rest, none =>
    if a.name = name ∧ a.space = space then rest else a :: setAttribute rest name space value

def apply (f : NodeForm) : Mutation → NodeForm
  | .attributes _ name space value => { f with attrs := setAttribute f.attrs name space value }
  | .characterData _ value incomplete => { f with shortValue := some value, incomplete := incomplete }
  | _ => f

end NodeForm

namespace KnownTree

def node? (m : KnownTree) (name : String) : Option KnownNode := m.nodes.get? name

def knows (m : KnownTree) (name : String) : Bool := m.nodes.contains name

def update (m : KnownTree) (name : String) (f : KnownNode → KnownNode) : KnownTree :=
  { m with nodes := m.nodes.modify name f }

def updateAt (m : KnownTree) (link : Option String) (f : KnownNode → KnownNode) : KnownTree :=
  link.elim m fun name => m.update name f

def parentNode? (m : KnownTree) (name : String) : Option KnownNode :=
  ((m.node? name).bind (·.parent)).bind m.node?

def chain (m : KnownTree) : Nat → Option String → List String
  | 0, _ | _, none => []
  | fuel + 1, some name => name :: chain m fuel ((m.node? name).bind (·.next))

def children (m : KnownTree) (name : String) : List String :=
  m.chain (m.nodes.length + 1) ((m.node? name).bind (·.child))

def strike (names : List String) (name : String) : List String := names.filter (· ≠ name)

theorem length_strike_lt {names : List String} {name : String} (h : name ∈ names) :
    (strike names name).length < names.length :=
  List.length_filter_lt_length_iff_exists.mpr ⟨name, h, by simp⟩

/-- The nodes reached from some through their children, each once. A name that is met is struck off
those not met yet, so that no node is gone through twice. -/
def reachableFrom (m : KnownTree) (fresh : List String) : List String → List String
  | [] => []
  | name :: rest =>
    if name ∈ fresh then name :: reachableFrom m (strike fresh name) (m.children name ++ rest)
    else reachableFrom m fresh rest
termination_by pending => (fresh.length, pending.length)
decreasing_by
  · exact Prod.Lex.left _ _ (length_strike_lt (by assumption))
  · exact Prod.Lex.right _ (Nat.lt_succ_self _)

def reachable (m : KnownTree) (names : List String) : List String :=
  m.reachableFrom (m.nodes.keys ++ names) names

def unhook (m : KnownTree) (name : String) (node : KnownNode) : KnownTree :=
  let m := m.updateAt node.parent fun p => if p.child = some name then { p with child := node.next } else p
  let m := m.updateAt node.prev fun p => { p with next := node.next }
  m.updateAt node.next fun n => { n with prev := node.prev }

/-- Puts a node in front of the children of its new parent, or nowhere. -/
def reparent (m : KnownTree) (name : String) (parent : Option String) : KnownTree :=
  match m.node? name with
  | none => m
  | some node =>
    if node.parent = parent then m
    else
      let m := m.unhook name node
      let first := (parent.bind m.node?).bind (·.child)
      let m := m.update name fun n => { n with prev := none, next := first, parent := parent }
      match parent with
      | none => m
      | some parent =>
        (m.updateAt first fun n => { n with prev := some name }).update parent fun p =>
          { p with child := some name }

/-- Forgets a node and everything below it. Each level uses up one unit of fuel. -/
def destroyBelow : Nat → KnownTree → String → KnownTree
  | 0, m, _ => m
  | fuel + 1, m, name =>
    let m := m.reparent name none
    let m := (m.children name).foldl (destroyBelow fuel) m
    { nodes := m.nodes.erase name
      orphans := strike m.orphans name
      root := if m.root = some name then none else m.root }

def destroy (m : KnownTree) (name : String) : KnownTree := destroyBelow (m.nodes.length + 1) m name

def ensure (m : KnownTree) (name : String) : KnownTree :=
  if m.knows name then m
  else { m with nodes := m.nodes.insert name { form := { actor := name }, standin := true } }

/-- Reads a form: the node is made or renewed, and hooked up to its parent. -/
def readForm (m : KnownTree) (form : NodeForm) : KnownTree :=
  let node : KnownNode := ((m.node? form.actor).getD { form := form })
  let m := { m with nodes := m.nodes.insert form.actor { node with form := form, standin := false } }
  match form.parent with
  | none => m
  | some parent => (m.ensure parent).reparent form.actor (some parent)

def read (m : KnownTree) (form : Json) : Except ClientError (KnownTree × String) :=
  match NodeForm.ofJson? form with
  | none => .error (.malformed .badNodeForm)
  | some form => .ok (m.readForm form, form.actor)

def orphan (m : KnownTree) (name : String) : KnownTree :=
  let m := m.reparent name none
  if name ∈ m.orphans then m else { m with orphans := m.orphans ++ [name] }

def adopt (m : KnownTree) (parent name : String) : KnownTree :=
  let m := m.reparent name (some parent)
  { m with orphans := strike m.orphans name }

/-- Applies a record, and gives it back with the nodes that are known; none if its target is not. -/
def applyRecord (m : KnownTree) (record : Mutation) : KnownTree × Option Mutation :=
  if !m.knows record.target then (m, none)
  else
    match record with
    | .childList target added removed count =>
      let removed := removed.filter m.knows
      let added := added.filter m.knows
      let m := removed.foldl orphan m
      let m := added.foldl (adopt · target) m
      let m := m.update target fun n => { n with form := { n.form with numChildren := count } }
      (m, some (.childList target added removed count))
    | .frameLoad _ _ _ => (m, some record)
    | .documentUnload target => (m.destroy target, some record)
    | .attributes target _ _ _ | .characterData target _ _ =>
      (m.update target fun n => { n with form := n.form.apply record }, some record)

def applyRecords (m : KnownTree) : List Mutation → KnownTree × List Mutation
  | [] => (m, [])
  | record :: rest =>
    let (m, first) := m.applyRecord record
    let (m, others) := m.applyRecords rest
    (m, first.toList ++ others)

def cleanUp (m : KnownTree) : KnownTree := m.orphans.foldl destroy { m with orphans := [] }

end KnownTree

end RemoteInspector
