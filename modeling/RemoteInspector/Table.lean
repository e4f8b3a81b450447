/-!
Tables: association lists read by the first entry of a key. A table is not required to have
distinct keys; `insert` and `erase` keep them distinct where they are.
-/
namespace RemoteInspector

abbrev Table (κ α : Type) := List (κ × α)

namespace Table

variable {κ α : Type} [DecidableEq κ]

def get? : Table κ α → κ → Option α
  | [], _ => none
  | (k, v) :: t, key => if k = key then some v else get? t key

def contains (t : Table κ α) (key : κ) : Bool := (get? t key).isSome

def keys (t : Table κ α) : List κ := t.map Prod.fst

def values (t : Table κ α) : List α := t.map Prod.snd

def insert : Table κ α → κ → α → Table κ α
  | [], key, v => [(key, v)]
  | (k, w) :: t, key, v => if k = key then (k, v) :: t else (k, w) :: insert t key v

def erase (t : Table κ α) (key : κ) : Table κ α := t.filter (·.1 ≠ key)

/-- Changes the value of a key; a missing key stays missing. -/
def modify : Table κ α → κ → (α → α) → Table κ α
  | [], _, _ => []
  | (k, w) :: t, key, f => if k = key then (k, f w) :: t else (k, w) :: modify t key f

/-- Writes at the place given by the order `lt` of keys, over an entry of the same key. -/
def insertBy (lt : κ → κ → Bool) : Table κ α → κ → α → Table κ α
  | [], key, v => [(key, v)]
  | (k, w) :: t, key, v =>
    if k = key then (k, v) :: t
    else if lt key k then (key, v) :: (k, w) :: t
    else (k, w) :: insertBy lt t key v

end Table

end RemoteInspector
