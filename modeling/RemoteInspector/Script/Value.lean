import RemoteInspector.Double
import RemoteInspector.Text.Quoted
/-!
Values of a debugged script. Objects stay with the host that made them and are named by it: two
hosts may use the same number for different objects.
-/
namespace RemoteInspector

abbrev GlobalId := Nat

abbrev ObjectId := Nat

abbrev FrameId := Nat

structure ObjectRef where
  host : String
  id : ObjectId
  deriving DecidableEq, Repr

inductive Value
  | undefined
  | null
  | bool (value : Bool)
  | number (value : Double)
  | string (value : String)
  | object (ref : ObjectRef)
  deriving DecidableEq, Repr, Inhabited

inductive Completion (α : Type)
  | returned (value : α)
  | threw (value : α)
  | yielded (value : α)
  | terminated
  deriving DecidableEq, Repr

namespace Value

/-- Numbers in descriptions are always positional; of two equally near decimals the one farther from
zero is written. -/
def numberLayout : Double.Layout where
  tie := .up
  positionalUpTo := none
  positionalDownTo := none
  positiveMark := ""
  negativeMark := ""
  wholeTail := ""

def describeNumber (d : Double) : String :=
  if d.isNaN then "NaN"
  else if d.isInfinite then (if d.negative then "-inf" else "inf")
  else numberLayout.render d

/-- A value as a reader of logs sees it; an object shows its class and number. -/
def describe (classOf : ObjectRef → String) : Value → String
  | undefined => "undefined"
  | null => "null"
  | bool true => "true"
  | bool false => "false"
  | number d => describeNumber d
  | string s => Text.quoted s
  | object ref => "[object " ++ classOf ref ++ " #" ++ toString ref.id ++ "]"

def object? : Value → Option ObjectRef
  | object ref => some ref
  | _ => none

end Value

namespace Completion

variable {α β : Type}

def map (f : α → β) : Completion α → Completion β
  | returned v => returned (f v)
  | threw v => threw (f v)
  | yielded v => yielded (f v)
  | terminated => terminated

/-- The value of code that went on to its end or to a stop of its own. -/
def result? : Completion α → Option α
  | returned v | yielded v => some v
  | threw _ | terminated => none

def describe (classOf : ObjectRef → String) : Completion Value → String
  | returned v => "Return(" ++ v.describe classOf ++ ")"
  | threw v => "Throw(" ++ v.describe classOf ++ ")"
  | yielded v => "Yield(" ++ v.describe classOf ++ ")"
  | terminated => "Terminated"

end Completion

end RemoteInspector
