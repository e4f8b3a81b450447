import RemoteInspector.Json.Basic
import RemoteInspector.Proofs.Table
/-!
Reading the members of objects: the last one written under a key is the one that is read.
-/
namespace RemoteInspector

namespace Fields

@[simp] theorem get?_nil (key : String) : Fields.get? [] key = none := rfl

theorem get?_insert (fields : Fields) (key other : String) (value : Json) :
    (fields.insert key value).get? other = if key = other then some value else fields.get? other :=
  Table.get?_insertBy _ fields key other value

theorem get?_foldl_insert (members : List (String × Json)) (fields : Fields) (key : String) :
    (members.foldl (fun fields m => fields.insert m.1 m.2) fields).get? key =
      ((members.reverse.find? (·.1 = key)).map Prod.snd).or (fields.get? key) := by
  induction members generalizing fields with
  | nil => rfl
  | cons m rest ih =>
    rw [List.foldl_cons, ih, get?_insert, List.reverse_cons, List.find?_append]
    by_cases same : m.1 = key
    · cases rest.reverse.find? (·.1 = key) <;> simp [same]
    · cases rest.reverse.find? (·.1 = key) <;> simp [same]

theorem get?_ofList (members : List (String × Json)) (key : String) :
    (ofList members).get? key = (members.reverse.find? (·.1 = key)).map Prod.snd := by
  rw [ofList, get?_foldl_insert, get?_nil, Option.or_none]

theorem get?_ofList_eq_none {members : List (String × Json)} {key : String}
    (absent : ∀ m ∈ members, m.1 ≠ key) : (ofList members).get? key = none := by
  rw [get?_ofList, List.find?_eq_none.mpr]
  · rfl
  · intro m member
    simpa using absent m (List.mem_reverse.mp member)

theorem get?_ofList_cons {members : List (String × Json)} {key : String} (value : Json)
    (absent : ∀ m ∈ members, m.1 ≠ key) : (ofList ((key, value) :: members)).get? key = some value := by
  have none : members.reverse.find? (·.1 = key) = none := by
    refine List.find?_eq_none.mpr fun m member => ?_
    simpa using absent m (List.mem_reverse.mp member)
  rw [get?_ofList, List.reverse_cons, List.find?_append, none]
  simp

theorem get?_ofList_append (first last : List (String × Json)) (key : String) :
    (ofList (first ++ last)).get? key = ((ofList last).get? key).or ((ofList first).get? key) := by
  simp only [get?_ofList, List.reverse_append, List.find?_append]
  cases last.reverse.find? (·.1 = key) <;> rfl

end Fields

end RemoteInspector
