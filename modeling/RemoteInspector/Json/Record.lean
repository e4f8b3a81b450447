import RemoteInspector.Json.Basic
/-!
Records in JSON: members given by key in an object, or by place in an array.
-/
namespace RemoteInspector

structure Record where
  byPlace : Bool
  fetch : Nat → String → Option Json

namespace Record

def ofJson? (size : Nat) : Json → Option Record
  | .obj fields => some ⟨false, fun _ key => Fields.get? fields key⟩
  | .arr items => if items.length ≤ size then some ⟨true, fun place _ => items[place]?⟩ else none
  | _ => none

variable {α : Type}

def required (r : Record) (place : Nat) (key : String) (read : Json → Option α) : Option α :=
  (r.fetch place key).bind read

/-- A member that may be null; an object may leave it out, an array may not. -/
def nullable (r : Record) (place : Nat) (key : String) (read : Json → Option α) :
    Option (Option α) :=
  match r.fetch place key with
  | none => if r.byPlace then none else some none
  | some .null => some none
  | some j => (read j).map some

def defaulted (r : Record) (place : Nat) (key : String) (read : Json → Option α) (default : α) :
    Option α :=
  match r.fetch place key with
  | none => some default
  | some j => read j

end Record

namespace Json

def boundedNat? (limit : Nat) (j : Json) : Option Nat := j.natural?.filter (· ≤ limit)

def word16? : Json → Option Nat := boundedNat? (UInt16.size - 1)

def word32? : Json → Option Nat := boundedNat? (UInt32.size - 1)

def word64? : Json → Option Nat := boundedNat? (UInt64.size - 1)

def listOf? {α : Type} (read : Json → Option α) : Json → Option (List α)
  | .arr items => items.mapM read
  | _ => none

def nullableOf? {α : Type} (read : Json → Option α) : Json → Option (Option α)
  | .null => some none
  | j => (read j).map some

end Json

end RemoteInspector
