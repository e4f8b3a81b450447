import RemoteInspector.Script.Value
import RemoteInspector.Table
/-!
The script engine of a page as tables: its objects, what evaluations give, the paused stack and the
frames being run.
-/
namespace RemoteInspector

/-- An expression of the tables: a value, the receiver of a call, a bound name, or the call of a
bound function. -/
inductive Expr
  | const (value : Value)
  | receiver
  | bound (name : String)
  | call (name : String) (arguments : List Expr)
  deriving Repr, Inhabited

namespace Expr

def missing : Value := .string "[missing]"

def function : Value := .string "[function]"

def notFunction : Value := .string "[not a function]"

def valueWith (receiver? : Option Value) : Expr → Value
  | const value => value
  | receiver => receiver?.getD .undefined
  | bound _ => missing
  | call _ _ => notFunction

def value : Expr → Value := valueWith none

end Expr

/-- An entry of an object's property list: it may refuse to be described or have vanished. -/
inductive PropertyEntry
  | fails (error : String)
  | vanished
  | data (value : Expr) (writable configurable enumerable : Bool)
  | accessor (get set : Option Expr) (configurable enumerable : Bool)
  deriving Repr

inductive PropertyKind
  | data (value : Value) (writable : Bool)
  | accessor (get set : Option Value)
  deriving DecidableEq, Repr

structure PropertyDescriptor where
  configurable : Bool
  enumerable : Bool
  kind : PropertyKind
  deriving DecidableEq, Repr

namespace PropertyEntry

def describe : PropertyEntry → Except String (Option PropertyDescriptor)
  | fails error => .error error
  | vanished => .ok none
  | data value writable configurable enumerable =>
    .ok (some ⟨configurable, enumerable, .data value.value writable⟩)
  | accessor get set configurable enumerable =>
    .ok (some ⟨configurable, enumerable, .accessor (get.map Expr.value) (set.map Expr.value)⟩)

end PropertyEntry

structure ScriptObject where
  className : String := "Object"
  extensible : Bool := true
  frozen : Bool := false
  sealed : Bool := false
  callable : Bool := false
  /-- Whether script source backs the function; native functions have none. -/
  script : Bool := false
  name : Option String := none
  displayName : Option String := none
  global : Option GlobalId := none
  proto : Option ObjectId := none
  /-- The error that every look at the object's properties gives. -/
  dead : Option String := none
  message : Option String := none
  props : List (String × PropertyEntry) := []
  call : Completion Expr := .returned (.const .undefined)
  deriving Repr

namespace ScriptObject

def ownPropertyNames (o : ScriptObject) : Except String (List String) :=
  match o.dead with
  | some error => .error error
  | none => .ok (o.props.map Prod.fst)

def ownProperty (o : ScriptObject) (name : String) : Except String (Option PropertyDescriptor) :=
  match o.dead with
  | some error => .error error
  | none =>
    match Table.get? o.props name with
    | some entry => entry.describe
    | none => .ok none

/-- A getter may run while an object is looked at only if it is native code. -/
def isSafeGetter (o : ScriptObject) : Bool := o.callable && o.className == "Function" && !o.script

end ScriptObject

inductive EvalTarget
  | global (id : GlobalId)
  | frame (id : FrameId)
  deriving DecidableEq, Repr

def EvalTarget.label : EvalTarget → String
  | .global id => "g" ++ toString id
  | .frame id => "f" ++ toString id

/-- What the evaluation of a source gives, everywhere or in one target: first the values of `before`
are worked out for their effects. -/
structure EvalRule where
  source : String
  target : Option String
  before : List Expr
  completion : Completion Expr
  deriving Repr

structure PausedFrame where
  id : FrameId
  kind : String
  name : String
  url : String
  line : Nat
  column : Nat
  deriving DecidableEq, Repr

structure ScriptLocation where
  url : String
  line : Nat
  column : Option Nat
  deriving DecidableEq, Repr

/-- A frame being run, as its observers see it. -/
structure LiveFrame where
  callee : Option ObjectRef
  kind : String
  location : Option ScriptLocation
  parameters : Option (List String)
  arguments : Option (List Value)
  global : GlobalId
  deriving DecidableEq, Repr

structure Completions where
  found : List String
  property : String
  deriving DecidableEq, Repr

/-- Who is told of frames: a trace actor of a connection. -/
structure FrameHook where
  connection : Nat
  actor : String
  deriving DecidableEq, Repr

structure Engine where
  content : GlobalId := 1
  childGlobals : List GlobalId := []
  denied : List GlobalId := []
  objects : Table ObjectId ScriptObject := []
  nextArray : ObjectId := 2000000
  evals : List EvalRule := []
  globalBindings : List (GlobalId × String) := []
  frameBindings : List (FrameId × String) := []
  completions : Table String Completions := []
  paused : List PausedFrame := []
  /-- The frames being run, youngest first, each with the hooks that saw it entered. -/
  stack : List (LiveFrame × List FrameHook) := []
  deriving Repr

namespace Engine

def object (e : Engine) (id : ObjectId) : ScriptObject := (e.objects.get? id).getD {}

def nodeObject (node : Nat) : ObjectId := 1000000 + node

def arrayEntries (values : List Value) : List (String × PropertyEntry) :=
  (values.zipIdx.map fun (v, i) => (toString i, PropertyEntry.data (.const v) true true true)) ++
    [("length", .data (.const (.number (Double.ofNat values.length))) true true true)]

def makeArray (e : Engine) (values : List Value) : Engine × ObjectId :=
  let array : ScriptObject := { className := "Array", props := arrayEntries values }
  ({ e with objects := e.objects.insert e.nextArray array, nextArray := e.nextArray + 1 }, e.nextArray)

def bindsIn (e : Engine) (name : String) : EvalTarget → Bool
  | .global id => (id, name) ∈ e.globalBindings
  | .frame id => (id, name) ∈ e.frameBindings

/-- The rule for a source: the first that names it and fits the target. An unknown source throws, and
so does a frame that is not paused. -/
def rule (e : Engine) (target : EvalTarget) (source : String) : List Expr × Completion Expr :=
  match target with
  | .frame id =>
    if e.paused.any (·.id == id) then named target
    else ([], .threw (.const (.string "Error: frame is not live")))
  | .global _ => named target
where
  named (target : EvalTarget) : List Expr × Completion Expr :=
    match e.evals.find? fun r => r.source == source && r.target.elim true (· == target.label) with
    | some r => (r.before, r.completion)
    | none => ([], .threw (.const (.string ("ReferenceError: " ++ source))))

end Engine

end RemoteInspector
