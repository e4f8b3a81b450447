import Mathlib.Data.List.Find
import RemoteInspector.Client.KnownTree
import RemoteInspector.Proofs.Dom.Edits
/-!
Attributes as maps from namespaces and names to values. The word of a change names both, but its value is looked up
by the name alone.
-/
namespace RemoteInspector

namespace Attribute

abbrev Key := Option String × String

def key (a : Attribute) : Key := (a.space, a.name)

def value? (attrs : List Attribute) (key : Key) : Option String := (attrs.find? (·.key = key)).map (·.value)

variable {attrs : List Attribute} {key : Key}

@[simp] theorem value?_nil (key : Key) : value? [] key = none := rfl

theorem value?_cons (a : Attribute) (rest : List Attribute) (key : Key) :
    value? (a :: rest) key = if a.key = key then some a.value else value? rest key := by
  unfold value?
  rw [List.find?_cons]
  by_cases same : a.key = key <;> simp [same]

theorem value?_eq_none (absent : key ∉ attrs.map Attribute.key) : value? attrs key = none := by
  refine Option.map_eq_none_iff.mpr (List.find?_eq_none.mpr fun a member => ?_)
  simpa using fun same => absent (List.mem_map.mpr ⟨a, member, same⟩)

theorem value?_filter (attrs : List Attribute) (gone key : Key) :
    value? (attrs.filter (·.key ≠ gone)) key = if gone = key then none else value? attrs key := by
  induction attrs with
  | nil => simp
  | cons a rest ih =>
    by_cases goes : a.key = gone
    · rw [List.filter_cons_of_neg (by simpa using goes), ih, value?_cons]
      by_cases same : gone = key
      · simp [same]
      · simp [same, goes]
    · rw [List.filter_cons_of_pos (by simpa using goes), value?_cons, value?_cons, ih]
      by_cases same : gone = key
      · subst same
        simp [goes]
      · simp [same]

theorem value?_map (attrs : List Attribute) (set key : Key) (value : String) :
    value? (attrs.map fun a => if a.key = set then { a with value := value } else a) key =
      if set = key then (value? attrs key).map fun _ => value else value? attrs key := by
  induction attrs with
  | nil => simp
  | cons a rest ih =>
    rw [List.map_cons, value?_cons, value?_cons, ih]
    by_cases same : set = key
    · subst same
      by_cases here : a.key = set
      · have kept : ({ a with value := value } : Attribute).key = set := here
        simp [here, kept]
      · simp [here]
    · by_cases here : a.key = set
      · have kept : ({ a with value := value } : Attribute).key = set := here
        simp [here, kept, same]
      · simp [here, same]

theorem value?_append (attrs added : List Attribute) (key : Key) :
    value? (attrs ++ added) key = (value? attrs key).or (value? added key) := by
  unfold value?
  rw [List.find?_append]
  cases attrs.find? (·.key = key) <;> simp

end Attribute

open Attribute (Key value?)

/-! ### Setting attributes -/

theorem Dom.value?_setAttribute (attrs : List Attribute) (name : String) (space value : Option String) (key : Key) :
    value? (Dom.setAttribute attrs name space value) key = if (space, name) = key then value else value? attrs key := by
  have meant (a : Attribute) : (a.name == name && a.space == space) = decide (a.key = (space, name)) := by
    simp [Attribute.key, Prod.ext_iff, and_comm, Bool.beq_eq_decide_eq]
  unfold Dom.setAttribute
  simp only [meant]
  cases value with
  | none =>
    have rest := Attribute.value?_filter attrs (space, name) key
    simpa using rest
  | some v =>
    dsimp only
    by_cases there : attrs.any fun a => decide (a.key = (space, name))
    · rw [if_pos there]
      have set := Attribute.value?_map attrs (space, name) key v
      simp only [decide_eq_true_eq]
      rw [set]
      by_cases same : (space, name) = key
      · subst same
        obtain ⟨a, member, here⟩ := List.any_eq_true.mp there
        cases found : value? attrs (space, name) with
        | some old => simp
        | none =>
          have absent := List.find?_eq_none.mp (Option.map_eq_none_iff.mp found) a member
          exact absurd here absent
      · simp [same]
    · rw [if_neg there, Attribute.value?_append, Attribute.value?_cons]
      by_cases same : (space, name) = key
      · subst same
        have absent : value? attrs (space, name) = none := by
          refine Attribute.value?_eq_none fun member => there ?_
          obtain ⟨a, member, here⟩ := List.mem_map.mp member
          exact List.any_eq_true.mpr ⟨a, member, by simpa using here⟩
        simp [absent, Attribute.key]
      · simp [same, Attribute.key, value?]

namespace NodeForm

variable {attrs rest : List Attribute} {a : Attribute} {name : String} {space value : Option String}

theorem setAttribute_cons_eq (here : a.key = (space, name)) :
    setAttribute (a :: rest) name space value = (value.map fun v => { a with value := v }).toList ++ rest := by
  have meant : a.name = name ∧ a.space = space := (Prod.ext_iff.mp here).symm
  cases value <;> rw [setAttribute, if_pos meant] <;> rfl

theorem setAttribute_cons_ne (other : a.key ≠ (space, name)) :
    setAttribute (a :: rest) name space value = a :: setAttribute rest name space value := by
  have meant : ¬ (a.name = name ∧ a.space = space) := fun both => other (Prod.ext_iff.mpr both.symm)
  cases value <;> rw [setAttribute, if_neg meant]

theorem setAttribute_nil : setAttribute [] name space value = (value.map (⟨space, name, ·⟩)).toList := by
  cases value <;> rfl

theorem value?_setAttribute (distinct : (attrs.map Attribute.key).Nodup) (name : String) (space value : Option String)
    (key : Key) :
    value? (setAttribute attrs name space value) key = if (space, name) = key then value else value? attrs key := by
  induction attrs with
  | nil =>
    rw [setAttribute_nil]
    cases value <;> by_cases same : (space, name) = key <;> simp [value?, Attribute.key, same]
  | cons a rest ih =>
    obtain ⟨apart, distinct⟩ := List.nodup_cons.mp distinct
    by_cases here : a.key = (space, name)
    · rw [setAttribute_cons_eq here, Attribute.value?_append, Attribute.value?_cons, here]
      by_cases same : (space, name) = key
      · have absent : value? rest key = none := Attribute.value?_eq_none (same ▸ here ▸ apart)
        have kept (v : String) : ({ a with value := v } : Attribute).key = key := here.trans same
        cases value <;> simp [same, absent, Attribute.value?_cons, kept]
      · have kept (v : String) : ({ a with value := v } : Attribute).key ≠ key := fun met => same (here.symm.trans met)
        cases value <;> simp [same, Attribute.value?_cons, kept]
    · rw [setAttribute_cons_ne here, Attribute.value?_cons, Attribute.value?_cons, ih distinct]
      by_cases same : (space, name) = key
      · simp [← same, here]
      · simp [same]

theorem key_mem_setAttribute {key : Key} (member : key ∈ (setAttribute attrs name space value).map Attribute.key) :
    key ∈ attrs.map Attribute.key ∨ key = (space, name) := by
  induction attrs with
  | nil =>
    rw [setAttribute_nil] at member
    cases value <;> simp_all [Attribute.key]
  | cons a rest ih =>
    rw [List.map_cons, List.mem_cons]
    by_cases here : a.key = (space, name)
    · rw [setAttribute_cons_eq here, List.map_append, List.mem_append] at member
      rcases member with set | old
      · have met : key = a.key := by cases value <;> simp_all [Attribute.key]
        exact .inl (.inl met)
      · exact .inl (.inr old)
    · rw [setAttribute_cons_ne here, List.map_cons, List.mem_cons] at member
      rcases member with first | later
      · exact .inl (.inl first)
      · exact (ih later).imp_left .inr

theorem distinct_setAttribute (distinct : (attrs.map Attribute.key).Nodup) (name : String)
    (space value : Option String) : ((setAttribute attrs name space value).map Attribute.key).Nodup := by
  induction attrs with
  | nil =>
    rw [setAttribute_nil]
    cases value <;> simp
  | cons a rest ih =>
    obtain ⟨apart, distinct'⟩ := List.nodup_cons.mp distinct
    by_cases here : a.key = (space, name)
    · rw [setAttribute_cons_eq here]
      cases value with
      | none => exact distinct'
      | some v => exact distinct
    · rw [setAttribute_cons_ne here, List.map_cons]
      refine List.nodup_cons.mpr ⟨fun member => ?_, ih distinct'⟩
      rcases key_mem_setAttribute member with old | new
      · exact apart old
      · exact here new

end NodeForm

/-! ### Edits of attributes -/

namespace Dom

/-- An edit of one attribute: a new value, or none to take it away. -/
structure Touch where
  node : NodeId
  key : Key
  value : Option String
  deriving DecidableEq, Repr

namespace Touch

def edit (t : Touch) : Edit := .attr t.node t.key.2 t.key.1 t.value

def change (t : Touch) : Change := .attributes t.node t.key.2 t.key.1

end Touch

variable {d : Dom} {e : NodeId} {key : Key}

def attributes (d : Dom) (n : NodeId) : List Attribute := (d.node? n).elim [] (·.attrs)

def touchAll (d : Dom) (batch : List Touch) : Dom := (d.editAll (batch.map Touch.edit)).1

theorem touchAll_cons (d : Dom) (t : Touch) (rest : List Touch) :
    d.touchAll (t :: rest) = (d.edit t.edit).1.touchAll rest := rfl

theorem touchAll_keeps {α : Type} {f : Dom → α} (each : ∀ d t, f (d.edit (Touch.edit t)).1 = f d) (d : Dom)
    (batch : List Touch) : f (d.touchAll batch) = f d := by
  induction batch generalizing d with
  | nil => rfl
  | cons t rest ih => rw [touchAll_cons, ih, each]

theorem isWithin_congr {d d' : Dom} (parents : ∀ n, d'.parent? n = d.parent? n) (top : NodeId) (fuel : Nat) (n : NodeId) :
    d'.isWithin top fuel n = d.isWithin top fuel n := by
  induction fuel generalizing n with
  | zero => rfl
  | succ fuel ih =>
    rw [isWithin, isWithin, parents]
    cases d.parent? n with
    | none => rfl
    | some p => simp only [ih]

theorem isWithin_touchAll (d : Dom) (batch : List Touch) (top n : NodeId) :
    (d.touchAll batch).isWithin top (d.touchAll batch).reach n = d.isWithin top d.reach n := by
  have size : (d.touchAll batch).nodes.length = d.nodes.length :=
    touchAll_keeps (f := fun d => d.nodes.length) (fun d t => Table.length_modify ..) d batch
  have parents (n : NodeId) : (d.touchAll batch).parent? n = d.parent? n :=
    touchAll_keeps (f := fun d => d.parent? n) (fun d t => parent?_update (fun _ => by rfl) ..) d batch
  rw [reach, size, ← reach]
  exact isWithin_congr parents top _ n

theorem value?_touchAll {batch : List Touch} (other : ∀ t ∈ batch, t.node = e → t.key ≠ key) :
    value? ((d.touchAll batch).attributes e) key = value? (d.attributes e) key := by
  induction batch generalizing d with
  | nil => rfl
  | cons t rest ih =>
    rw [touchAll_cons, ih fun u member => other u (List.mem_cons_of_mem _ member)]
    have edited : (d.edit t.edit).1.node? e = _ := node?_update d t.node e _
    rw [attributes, edited, attributes]
    cases d.node? e with
    | none => by_cases here : t.node = e <;> simp [here]
    | some node =>
      by_cases here : t.node = e
      · have apart : t.key ≠ key := other t List.mem_cons_self here
        simp [here, value?_setAttribute, apart]
      · simp [here]

theorem attribute?_eq_value? (sole : ∀ a ∈ d.attributes e, a.name = key.2 → a.key = key) :
    d.attribute? e key.2 = value? (d.attributes e) key := by
  rw [attributes] at sole
  rw [attribute?, attributes]
  cases found : d.node? e with
  | none => rfl
  | some node =>
    rw [found] at sole
    rw [Option.bind_some, Option.elim_some, value?]
    refine congrArg _ (List.find?_congr fun a member => ?_)
    exact decide_eq_decide.mpr ⟨sole a member, congrArg Prod.snd⟩

/-! ### What is told of edits -/

/-- What is known of the attributes of a node once a batch of edits has been told of, which left the tree `d`: of an
attribute that was edited, the value of the first one that has its name by then. -/
def hear (e : NodeId) (d : Dom) (batch : List Touch) (known : Key → Option String) (key : Key) : Option String :=
  if batch.any fun t => t.node = e && t.key = key then d.attribute? e key.2 else known key

def heard (e : NodeId) : Dom → (Key → Option String) → List (List Touch) → Key → Option String
  | _, known, [] => known
  | d, known, batch :: rest => heard e (d.touchAll batch) (hear e (d.touchAll batch) batch known) rest

/-- Whenever an attribute of a node is edited, the node has none in another namespace that has the same name, by the
end of the batch. -/
def Sole (e : NodeId) : Dom → List (List Touch) → Prop
  | _, [] => True
  | d, batch :: rest =>
    (∀ t ∈ batch, t.node = e → ∀ a ∈ (d.touchAll batch).attributes e, a.name = t.key.2 → a.key = t.key) ∧
      Sole e (d.touchAll batch) rest

instance decidableSole (e : NodeId) : (d : Dom) → (batches : List (List Touch)) → Decidable (Sole e d batches)
  | _, [] => isTrue trivial
  | d, batch :: rest =>
    have := decidableSole e (d.touchAll batch) rest
    inferInstanceAs (Decidable (_ ∧ _))

theorem hear_eq_value? {batch : List Touch}
    (sole : ∀ t ∈ batch, t.node = e → ∀ a ∈ (d.touchAll batch).attributes e, a.name = t.key.2 → a.key = t.key) :
    hear e (d.touchAll batch) batch (value? (d.attributes e)) = value? ((d.touchAll batch).attributes e) := by
  funext key
  unfold hear
  split
  · rename_i edited
    obtain ⟨t, member, meant⟩ := List.any_eq_true.mp edited
    obtain ⟨here, rfl⟩ : t.node = e ∧ t.key = key := by simpa using meant
    exact attribute?_eq_value? (sole t member here)
  · rename_i unedited
    refine (value?_touchAll fun t member here same => unedited ?_).symm
    exact List.any_eq_true.mpr ⟨t, member, by simp [here, same]⟩

theorem heard_eq_value? {batches : List (List Touch)} (sole : Sole e d batches) :
    heard e d (value? (d.attributes e)) batches = value? ((batches.foldl touchAll d).attributes e) := by
  induction batches generalizing d with
  | nil => rfl
  | cons batch rest ih =>
    obtain ⟨first, later⟩ := sole
    rw [heard, hear_eq_value? first, ih later, List.foldl_cons]

end Dom

end RemoteInspector
