import Mathlib.Data.List.Basic
import RemoteInspector.Client.KnownTree
import RemoteInspector.Proofs.Table
/-!
The links of a client's tree: the children of a node form a list that is linked both ways.
-/
namespace RemoteInspector

namespace KnownTree

variable {m : KnownTree} {name x y p q : String} {node : KnownNode} {kids : String → List String}

/-! ### Reading a tree after a change -/

theorem node?_update (m : KnownTree) (name y : String) (f : KnownNode → KnownNode) :
    (m.update name f).node? y = (m.node? y).map fun k => if name = y then f k else k := by
  rw [node?, update, Table.get?_modify]
  by_cases same : name = y <;> simp [same, node?]

theorem node?_updateAt (m : KnownTree) (link : Option String) (y : String) (f : KnownNode → KnownNode) :
    (m.updateAt link f).node? y = (m.node? y).map fun k => if link = some y then f k else k := by
  cases link with
  | none => simp [updateAt]
  | some name => simpa [updateAt] using node?_update m name y f

def out (k : KnownNode) : KnownNode := { k with prev := none, next := none, parent := none }

/-- What is left of a neighbour's links when a node leaves its list. -/
def closed (name : String) (node : KnownNode) (y : String) (k : KnownNode) : KnownNode :=
  { k with
    child := if node.parent = some y ∧ k.child = some name then node.next else k.child
    next := if node.prev = some y then node.next else k.next
    prev := if node.next = some y then node.prev else k.prev }

theorem node?_unhook (m : KnownTree) (name y : String) (node : KnownNode) :
    (m.unhook name node).node? y = (m.node? y).map (closed name node y) := by
  simp only [unhook, node?_updateAt, Option.map_map]
  congr 1
  funext ⟨form, standin, parent, child, next, prev⟩
  by_cases above : node.parent = some y <;> by_cases first : child = some name <;>
    by_cases behind : node.prev = some y <;> by_cases ahead : node.next = some y <;>
    simp [closed, above, first, behind, ahead]

theorem node?_reparent_none (found : m.node? name = some node) (hooked : node.parent ≠ none) (y : String) :
    (m.reparent name none).node? y =
      (m.node? y).map fun k => if name = y then out (closed name node y k) else closed name node y k := by
  simp only [reparent, found, if_neg hooked, Option.bind_none, node?_update, node?_unhook, Option.map_map]
  rfl

/-- Puts a node that is in no list in front of a parent's children. -/
def hook (m : KnownTree) (name parent : String) : KnownTree :=
  let first := (m.node? parent).bind (·.child)
  ((m.update name fun n => { n with prev := none, next := first, parent := some parent }).updateAt first
    fun n => { n with prev := some name }).update parent fun p => { p with child := some name }

theorem node?_hook (m : KnownTree) (name parent y : String) :
    (m.hook name parent).node? y = (m.node? y).map fun k =>
      let first := (m.node? parent).bind (·.child)
      { k with
        parent := if name = y then some parent else k.parent
        child := if parent = y then some name else k.child
        next := if name = y then first else k.next
        prev := if first = some y then some name else if name = y then none else k.prev } := by
  simp only [hook, node?_update, node?_updateAt, Option.map_map]
  generalize (m.node? parent).bind (·.child) = first
  congr 1
  funext ⟨form, standin, link, child, next, prev⟩
  by_cases self : name = y <;> by_cases above : parent = y <;> by_cases front : first = some y <;>
    simp [self, above, front]

/-! ### Lists linked both ways -/

/-- The children of each node, in the order of the links. -/
structure Linked (m : KnownTree) (kids : String → List String) : Prop where
  first : ∀ {p node}, m.node? p = some node → node.child = (kids p).head?
  placed : ∀ {p before x after}, kids p = before ++ x :: after → ∃ node, m.node? x = some node ∧
    node.parent = some p ∧ node.prev = before.getLast? ∧ node.next = after.head?
  listed : ∀ {x node p}, m.node? x = some node → node.parent = some p → x ∈ kids p
  loose : ∀ {x node}, m.node? x = some node → node.parent = none → node.prev = none ∧ node.next = none
  known : ∀ {p x}, x ∈ kids p → ∃ node, m.node? p = some node
  nodup : ∀ p, (kids p).Nodup

/-- The neighbours of a node in a list, by those that it had while another was in the list. -/
theorem neighbours_of_gap {before after front back : List String} (nodup : (before ++ name :: after).Nodup)
    (split : before ++ after = front ++ x :: back) :
    ∃ front' back', before ++ name :: after = front' ++ x :: back' ∧
      front.getLast? = (if after.head? = some x then before.getLast? else front'.getLast?) ∧
      back.head? = if before.getLast? = some x then after.head? else back'.head? := by
  rcases List.append_eq_append_iff.mp split with ⟨middle, rfl, rfl⟩ | ⟨middle, rfl, rest⟩
  · refine ⟨before ++ name :: middle, back, by simp, ?_, by grind [List.mem_of_getLast?]⟩
    cases middle <;> grind
  · cases middle with
    | nil =>
      obtain rfl : after = x :: back := by simpa using rest.symm
      exact ⟨front ++ [name], back, by simp, by grind, by grind [List.mem_of_getLast?]⟩
    | cons first middle =>
      obtain ⟨rfl, rfl⟩ : x = first ∧ back = middle ++ after := by simpa using rest
      refine ⟨front, middle ++ name :: after, by simp, by grind [List.mem_of_head?], ?_⟩
      cases middle with
      | nil => grind
      | cons second middle =>
        have last : (front ++ x :: second :: middle).getLast? = (second :: middle).getLast? := by
          simp [List.getLast?_cons]
        have away : (second :: middle).getLast? ≠ some x := by grind [List.mem_of_getLast?]
        rw [last, if_neg away]
        rfl

namespace Linked

section

variable (linked : m.Linked kids)

include linked

theorem parent_of_mem (member : x ∈ kids p) : ∃ node, m.node? x = some node ∧ node.parent = some p := by
  obtain ⟨before, after, split⟩ := List.append_of_mem member
  obtain ⟨node, found, parent, -⟩ := linked.placed split
  exact ⟨node, found, parent⟩

theorem parent_unique (found : m.node? x = some node) (member : x ∈ kids p) : node.parent = some p := by
  obtain ⟨node', found', parent⟩ := linked.parent_of_mem member
  rwa [Option.some.inj (found.symm.trans found')]

theorem absent (out : ∀ node, m.node? name = some node → node.parent = none) (p : String) : name ∉ kids p := by
  intro member
  obtain ⟨node, found, parent⟩ := linked.parent_of_mem member
  rw [out node found] at parent
  cases parent

theorem outside (found : m.node? x = some node) (loose : node.parent = none) : x ∉ kids p := fun member => by
  cases loose.symm.trans (linked.parent_unique found member)

theorem bare (absent : m.node? p = none) : kids p = [] :=
  List.eq_nil_iff_forall_not_mem.mpr fun x member => by
    obtain ⟨k, found⟩ := linked.known member
    cases absent.symm.trans found

theorem filter_absent (out : ∀ node, m.node? name = some node → node.parent = none) :
    (fun p => (kids p).filter (· ≠ name)) = kids := by
  funext p
  refine List.filter_eq_self.mpr fun x member => ?_
  simpa using fun same : x = name => linked.absent out p (same ▸ member)

/-- In the list that a node has left, each of the others has its new neighbours. -/
theorem closed_placed {before after front back : List String} (around : kids p = before ++ name :: after)
    (prev : node.prev = before.getLast?) (next : node.next = after.head?)
    (split : before ++ after = front ++ x :: back) :
    ∃ k, m.node? x = some k ∧ k.parent = some p ∧
      (closed name node x k).prev = front.getLast? ∧ (closed name node x k).next = back.head? := by
  obtain ⟨front', back', apart, last, first⟩ := neighbours_of_gap (around ▸ linked.nodup p) split
  obtain ⟨k, known, parent, prev', next'⟩ := linked.placed (around.trans apart)
  refine ⟨k, known, parent, ?_, ?_⟩
  · rw [last, ← prev, ← next, ← prev']
    rfl
  · rw [first, ← prev, ← next, ← next']
    rfl

theorem closes (found : m.node? name = some node) {before after : List String}
    (around : kids p = before ++ name :: after) :
    (m.reparent name none).Linked fun p => (kids p).filter (· ≠ name) := by
  obtain ⟨node', found', parent, prev, next⟩ := linked.placed around
  cases found.symm.trans found'
  have read := node?_reparent_none found (by simp [parent])
  have nodup : (before ++ name :: after).Nodup := around ▸ linked.nodup p
  have here : (kids p).filter (· ≠ name) = before ++ after := by
    rw [around, List.filter_append, List.filter_cons, if_neg (by simp), List.filter_eq_self.mpr (by grind),
      List.filter_eq_self.mpr (by grind)]
  have elsewhere {q : String} (other : q ≠ p) : (kids q).filter (· ≠ name) = kids q := by
    refine List.filter_eq_self.mpr fun x member => ?_
    have apart : x ≠ name := by
      rintro rfl
      exact other (Option.some.inj ((linked.parent_unique found member).symm.trans parent))
    simpa using apart
  have stays {x : String} {k : KnownNode} (other : x ≠ name) (known : m.node? x = some k) :
      (m.reparent name none).node? x = some (closed name node x k) := by
    rw [read, known, Option.map_some, if_neg (Ne.symm other)]
  -- The neighbours are in the same list, so nodes of other lists keep their links.
  have unclosed {x : String} {k : KnownNode} (outside : x ∉ kids p) :
      (closed name node x k).prev = k.prev ∧ (closed name node x k).next = k.next := by
    rw [around] at outside
    have behind : node.prev ≠ some x := by grind [List.mem_of_getLast?]
    have ahead : node.next ≠ some x := by grind [List.mem_of_head?]
    simp [closed, behind, ahead]
  refine ⟨?_, ?_, ?_, ?_, ?_, fun q => (linked.nodup q).filter _⟩
  · intro q k' seen
    obtain ⟨k, known, rfl⟩ := Option.map_eq_some_iff.mp ((read q).symm.trans seen)
    have child : (if name = q then out (closed name node q k) else closed name node q k).child =
        if node.parent = some q ∧ k.child = some name then node.next else k.child := by
      split <;> rfl
    rw [child, linked.first known]
    by_cases own : q = p
    · subst own
      rw [here, around]
      cases before with
      | nil => simp [parent, next]
      | cons b before => grind
    · rw [elsewhere own, if_neg (by grind)]
  · intro q front x back split
    by_cases own : q = p
    · subst own
      rw [here] at split
      obtain ⟨k, known, parent', links⟩ := linked.closed_placed around prev next split
      exact ⟨_, stays (by grind) known, parent', links⟩
    · rw [elsewhere own] at split
      obtain ⟨k, known, parent', prev', next'⟩ := linked.placed split
      have outside : x ∉ kids p := fun member =>
        own (Option.some.inj (parent'.symm.trans (linked.parent_unique known member)))
      obtain ⟨behind, ahead⟩ := unclosed (k := k) outside
      exact ⟨_, stays (by grind) known, parent', behind.trans prev', ahead.trans next'⟩
  · intro x k' q seen parent'
    obtain ⟨k, known, rfl⟩ := Option.map_eq_some_iff.mp ((read x).symm.trans seen)
    by_cases self : name = x
    · rw [if_pos self] at parent'
      cases parent'
    · rw [if_neg self] at parent'
      exact List.mem_filter.mpr ⟨linked.listed known parent', by simpa using Ne.symm self⟩
  · intro x k' seen parent'
    obtain ⟨k, known, rfl⟩ := Option.map_eq_some_iff.mp ((read x).symm.trans seen)
    by_cases self : name = x
    · rw [if_pos self]
      exact ⟨rfl, rfl⟩
    · rw [if_neg self] at parent' ⊢
      rw [(unclosed (linked.outside known parent')).1, (unclosed (linked.outside known parent')).2]
      exact linked.loose known parent'
  · intro q x member
    obtain ⟨k, known⟩ := linked.known (List.mem_filter.mp member).1
    exact ⟨_, by rw [read, known, Option.map_some]⟩

theorem reparent_none (name : String) : (m.reparent name none).Linked fun p => (kids p).filter (· ≠ name) := by
  cases found : m.node? name with
  | none =>
    have out : ∀ k, m.node? name = some k → k.parent = none := fun k known => by simp [found] at known
    rw [linked.filter_absent out]
    simpa [reparent, found] using linked
  | some node =>
    cases parent : node.parent with
    | none =>
      have out : ∀ k, m.node? name = some k → k.parent = none := fun k known => by
        rwa [← Option.some.inj (found.symm.trans known)]
      rw [linked.filter_absent out]
      simpa [reparent, found, parent] using linked
    | some p =>
      obtain ⟨before, after, around⟩ := List.append_of_mem (linked.listed found parent)
      exact linked.closes found around

/-- A node in no list goes to the front of another's children. -/
theorem hook (found : m.node? name = some node) (out : node.parent = none) (above : ∃ node, m.node? q = some node) :
    (m.hook name q).Linked fun p => if p = q then name :: kids q else kids p := by
  have absent : ∀ p, name ∉ kids p := linked.absent fun k known => by
    rwa [← Option.some.inj (found.symm.trans known)]
  obtain ⟨top, known_top⟩ := above
  have front : (m.node? q).bind (·.child) = (kids q).head? := by
    rw [known_top, Option.bind_some, linked.first known_top]
  have read := node?_hook m name q
  simp only [front] at read
  have unled : ∀ {x}, x ∉ kids q → (kids q).head? ≠ some x := fun outside head =>
    outside (List.mem_of_head? head)
  refine ⟨?_, ?_, ?_, ?_, ?_, ?_⟩
  · intro p k' seen
    obtain ⟨k, known, rfl⟩ := Option.map_eq_some_iff.mp ((read p).symm.trans seen)
    by_cases own : p = q
    · simp [own]
    · simp [own, Ne.symm own, linked.first known]
  · intro p before x after split
    by_cases own : p = q
    · subst own
      rw [if_pos rfl] at split
      cases before with
      | nil =>
        obtain ⟨rfl, rfl⟩ := List.cons_eq_cons.mp split
        refine ⟨_, (read name).trans (by rw [found, Option.map_some]), by simp, ?_, by simp⟩
        simp [unled (absent p)]
      | cons first before =>
        obtain ⟨rfl, around⟩ := List.cons_eq_cons.mp split
        obtain ⟨k, known, parent, prev, next⟩ := linked.placed around
        have nodup := around ▸ linked.nodup p
        have apart : name ≠ x := by grind
        refine ⟨_, (read x).trans (by rw [known, Option.map_some]), by simp [apart, parent], ?_, by simp [apart, next]⟩
        cases before with
        | nil => simp [around]
        | cons b before =>
          have differs : b ≠ x := by grind
          simp [around, differs, apart, prev, List.getLast?_cons]
    · rw [if_neg own] at split
      obtain ⟨k, known, parent, prev, next⟩ := linked.placed split
      have member : x ∈ kids p := split ▸ List.mem_append_right _ List.mem_cons_self
      have apart : name ≠ x := fun same => absent p (same ▸ member)
      have outside : x ∉ kids q := fun member' =>
        own (Option.some.inj (parent.symm.trans (linked.parent_unique known member')))
      refine ⟨_, (read x).trans (by rw [known, Option.map_some]), by simp [apart, parent], ?_, by simp [apart, next]⟩
      simp [unled outside, apart, prev]
  · intro x k' p seen parent
    obtain ⟨k, known, rfl⟩ := Option.map_eq_some_iff.mp ((read x).symm.trans seen)
    by_cases self : name = x
    · have same : q = p := by simpa [self] using parent
      simp [same, self]
    · have member := linked.listed known (by simpa [self] using parent)
      by_cases own : p = q
      · subst own
        simp [member]
      · simpa [own] using member
  · intro x k' seen parent
    obtain ⟨k, known, rfl⟩ := Option.map_eq_some_iff.mp ((read x).symm.trans seen)
    by_cases self : name = x
    · simp [self] at parent
    · have loose : k.parent = none := by simpa [self] using parent
      simpa [self, unled (linked.outside known loose)] using linked.loose known loose
  · intro p x member
    have known : ∃ k, m.node? p = some k := by
      by_cases own : p = q
      · exact ⟨top, own ▸ known_top⟩
      · rw [if_neg own] at member
        exact linked.known member
    obtain ⟨k, known⟩ := known
    exact ⟨_, (read p).trans (by rw [known, Option.map_some])⟩
  · intro p
    by_cases own : p = q
    · simpa [own] using ⟨absent q, linked.nodup q⟩
    · simpa [own] using linked.nodup p

theorem reparent_some_eq (found : m.node? name = some node) (moves : node.parent ≠ some q) :
    m.reparent name (some q) = (m.reparent name none).hook name q := by
  cases parent : node.parent with
  | none =>
    obtain ⟨prev, next⟩ := linked.loose found parent
    simp [reparent, found, parent, unhook, prev, next, updateAt, KnownTree.hook]
  | some p =>
    have away : some p ≠ some q := parent ▸ moves
    have first : ((m.reparent name none).node? q).bind (·.child) =
        ((m.unhook name node).node? q).bind (·.child) := by
      rw [node?_reparent_none found (by simp [parent]), node?_unhook]
      cases m.node? q with
      | none => rfl
      | some k =>
        simp only [Option.map_some, Option.bind_some]
        split <;> rfl
    rw [KnownTree.hook, first]
    simp only [reparent, found, parent, if_neg away, reduceCtorEq, if_false, Option.bind_some,
      KnownTree.update, Table.modify_modify]
    rfl

end

end Linked

end KnownTree

end RemoteInspector
