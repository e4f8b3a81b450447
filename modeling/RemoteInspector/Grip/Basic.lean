import RemoteInspector.Prefs
import RemoteInspector.Script.Engine
import RemoteInspector.Text.Blank
/-!
Grips: script values as a client sees them. A pool describes objects on the spot, a connection makes
actors of them.
-/
namespace RemoteInspector

structure StringLimits where
  longLength : Nat
  initialLength : Nat
  deriving DecidableEq, Repr

namespace StringLimits

def ofPrefs (p : Prefs) : StringLimits := ⟨p.longStringLength, p.longStringInitialLength⟩

def isLong (l : StringLimits) (s : String) : Bool := decide (l.longLength ≤ s.length)

def initial (l : StringLimits) (s : String) : String := Text.take l.initialLength s

end StringLimits

/-- How objects and long strings are named, and how objects are looked at. -/
structure Gripper (m : Type → Type) where
  limits : StringLimits
  /-- More steps than any chain of prototypes has. -/
  reach : Nat
  object : ObjectRef → m ScriptObject
  call : ObjectRef → Value → m (Completion Value)
  objectGrip : ObjectRef → m Json
  longStringGrip : String → m Json

namespace Grip

def null : Json := .object [("type", .str "null")]

def undefined : Json := .object [("type", .str "undefined")]

/-- Numbers that JSON cannot tell are named by their type; whole numbers below `2 ^ 53` are sent as
integers. -/
def number (d : Double) : Json :=
  if d.isNaN then .object [("type", .str "NaN")]
  else if d.isInfinite then .object [("type", .str (if d.negative then "-Infinity" else "Infinity"))]
  else if d.isZero && d.negative then .object [("type", .str "-0")]
  else if d.isWhole && decide (d.truncate.natAbs < Nat.pow 2 53) then .int d.truncate
  else .num (.float d)

variable {m : Type → Type} [Monad m]

def value (g : Gripper m) : Value → m Json
  | .undefined => pure undefined
  | .null => pure null
  | .bool b => pure (.bool b)
  | .number d => pure (number d)
  | .string s => if g.limits.isLong s then g.longStringGrip s else pure (.str s)
  | .object ref => g.objectGrip ref

def brokenProperty (error : String) : Json :=
  .object [("configurable", .bool false), ("writable", .bool false), ("enumerable", .bool false),
    ("value", .str error)]

def descriptor (g : Gripper m) (d : PropertyDescriptor) : m Json := do
  let head := [("configurable", Json.bool d.configurable), ("enumerable", .bool d.enumerable)]
  match d.kind with
  | .data v writable => return .object (head ++ [("writable", .bool writable), ("value", ← value g v)])
  | .accessor get set =>
    let get ← value g (get.getD .undefined)
    let set ← value g (set.getD .undefined)
    return .object (head ++ [("get", get), ("set", set)])

/-- One own property; none if it has vanished. -/
def property (g : Gripper m) (o : ScriptObject) (name : String) : m (Option Json) :=
  match o.ownProperty name with
  | .error e => pure (some (brokenProperty e))
  | .ok none => pure none
  | .ok (some d) => do return some (← descriptor g d)

/-- All own properties, in the order of the object's names; an object that cannot be looked at has
none. -/
def ownProperties (g : Gripper m) (o : ScriptObject) : m Fields :=
  match o.ownPropertyNames with
  | .error _ => pure []
  | .ok names =>
    names.foldlM (fun fields name => do
      match ← property g o name with
      | some j => return fields.insert name j
      | none => return fields) []

/-- The getter to run for a property: native code only. -/
def safeGetter? (g : Gripper m) (o : ScriptObject) (name : String) :
    m (Option (ObjectRef × Bool)) :=
  match o.ownProperty name with
  | .ok (some ⟨_, enumerable, .accessor (some (.object getter)) _⟩) => do
      return if (← g.object getter).isSafeGetter then some (getter, enumerable) else none
  | _ => pure none

def getterEntry (grip : Json) (level : Nat) (enumerable : Bool) : Json :=
  .object [("getterValue", grip), ("getterPrototypeLevel", .nat level),
    ("enumerable", .bool enumerable), ("writable", .bool (level != 0))]

/-- Runs the safe getter of one name at one level of the chain, unless the name is taken. -/
def safeGetterValue (g : Gripper m) (receiver : Value) (own : Fields) (level : Nat)
    (o : ScriptObject) (found : Fields) (name : String) : m Fields := do
  if found.contains name || (decide (0 < level) && own.contains name) then return found
  match ← safeGetter? g o name with
  | none => return found
  | some (getter, enumerable) =>
    match (← g.call getter receiver).result? with
    | none | some .undefined => return found
    | some v => return found.insert name (getterEntry (← value g v) level enumerable)

/-- Runs the safe getters along the chain of prototypes, which ends where it comes back to an object
met before or at one that cannot be looked at. -/
def safeGetters (g : Gripper m) (receiver : Value) (own : Fields) :
    Nat → Nat → List ObjectId → Fields → ObjectRef → m Fields
  | 0, _, _, found, _ => pure found
  | fuel + 1, level, visited, found, ref =>
    if ref.id ∈ visited then pure found
    else do
      let o ← g.object ref
      match o.ownPropertyNames with
      | .error _ => return found
      | .ok names =>
        let found ← names.foldlM (safeGetterValue g receiver own level o) found
        match o.proto with
        | none => return found
        | some proto =>
          safeGetters g receiver own fuel (level + 1) (ref.id :: visited) found ⟨ref.host, proto⟩

def safeGetterValues (g : Gripper m) (ref : ObjectRef) (own : Fields) : m Fields :=
  safeGetters g (.object ref) own g.reach 0 [] [] ref

/-- The prototype of an object; one that cannot be looked at shows none. -/
def prototype (g : Gripper m) (ref : ObjectRef) : m Json := do
  let o ← g.object ref
  match o.ownPropertyNames, o.proto with
  | .ok _, some proto => g.objectGrip ⟨ref.host, proto⟩
  | _, _ => return null

/-- The class and flags of an object, and the names of a function. -/
def summary (o : ScriptObject) : List (String × Json) :=
  [("class", .str o.className), ("extensible", .bool o.extensible), ("frozen", .bool o.frozen),
      ("sealed", .bool o.sealed)] ++
    if o.callable then
      (o.name.map fun n => ("name", Json.str n)).toList ++
        (o.displayName.map fun n => ("displayName", Json.str n)).toList
    else []

def describe (g : Gripper m) (ref : ObjectRef) : m Json := do
  let o ← g.object ref
  let proto ← prototype g ref
  let own ← ownProperties g o
  let getters ← safeGetterValues g ref own
  return .object (summary o ++ [("prototype", proto), ("ownProperties", .obj own),
    ("safeGetterValues", .obj getters)])

end Grip

end RemoteInspector
