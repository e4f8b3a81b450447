import RemoteInspector.Double
import RemoteInspector.Table
/-!
JSON values. A number is an integer of 64 bits or a double, and the two are never confused. An object
lists its members in increasing order of their keys, each key once.
-/
namespace RemoteInspector

inductive Number
  | int (value : Int)
  | float (value : Double)
  deriving DecidableEq, Repr

inductive Json
  | null
  | bool (value : Bool)
  | num (value : Number)
  | str (value : String)
  | arr (items : List Json)
  | obj (fields : List (String × Json))
  deriving Repr, Inhabited

abbrev Fields := Table String Json

namespace Fields

def get? (fields : Fields) (key : String) : Option Json := Table.get? fields key

def insert (fields : Fields) (key : String) (value : Json) : Fields :=
  Table.insertBy (fun a b => decide (a < b)) fields key value

def erase (fields : Fields) (key : String) : Fields := Table.erase fields key

def ofList (members : List (String × Json)) : Fields :=
  members.foldl (fun fields m => fields.insert m.1 m.2) []

end Fields

namespace Json

def object (members : List (String × Json)) : Json := .obj (Fields.ofList members)

def int (value : Int) : Json := .num (.int value)

def nat (value : Nat) : Json := .num (.int value)

def optional : Option Json → Json
  | some value => value
  | none => .null

def strings (values : List String) : Json := .arr (values.map .str)

def isNull : Json → Bool
  | .null => true
  | _ => false

def isObject : Json → Bool
  | .obj _ => true
  | _ => false

def string? : Json → Option String
  | .str s => some s
  | _ => none

def bool? : Json → Option Bool
  | .bool b => some b
  | _ => none

def items? : Json → Option (List Json)
  | .arr items => some items
  | _ => none

def fields? : Json → Option Fields
  | .obj fields => some fields
  | _ => none

/-- An integer that is not negative; no double is one, whole or not. -/
def natural? : Json → Option Nat
  | .num (.int (.ofNat n)) => some n
  | _ => none

def number? : Json → Option Double
  | .num (.int i) => some (Double.ofInt i)
  | .num (.float d) => some d
  | _ => none

/-- The member of an object; anything else has none. -/
def get? : Json → String → Option Json
  | .obj fields, key => Fields.get? fields key
  | _, _ => none

def getString? (j : Json) (key : String) : Option String := (j.get? key).bind string?

def getNatural? (j : Json) (key : String) : Option Nat := (j.get? key).bind natural?

def getBool? (j : Json) (key : String) : Option Bool := (j.get? key).bind bool?

def getItems (j : Json) (key : String) : List Json := ((j.get? key).bind items?).getD []

def getStrings (j : Json) (key : String) : List String := (j.getItems key).filterMap string?

/-- Writes a member of an object, over one of the same key; anything else stays as it is. -/
def set : Json → String → Json → Json
  | .obj fields, key, value => .obj (Fields.insert fields key value)
  | other, _, _ => other

def erase : Json → String → Json
  | .obj fields, key => .obj (Fields.erase fields key)
  | other, _ => other

/-- Writes the members of the second object over those of the first. -/
def merge (base extra : Json) : Json :=
  match extra with
  | .obj fields => fields.foldl (fun j m => j.set m.1 m.2) base
  | _ => base

end Json

end RemoteInspector
