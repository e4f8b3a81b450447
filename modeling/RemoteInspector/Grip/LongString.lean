import RemoteInspector.Grip.Basic
import RemoteInspector.Scene
/-!
Long strings: text too long to be sent at once is kept in an actor, from which the client takes
slices. All lengths and offsets count characters.
-/
namespace RemoteInspector

namespace LongString

def slice (text : String) (first last : Nat) : String :=
  String.ofList ((text.toList.drop first).take (last - first))

/-- An offset: numbers below zero mean the start, fractions are cut. -/
def offset (packet : Fields) (key : String) : Except Refusal Nat :=
  match (packet.get? key).bind Json.number? with
  | some d => .ok (min d.truncate.toNat (UInt64.size - 1))
  | none => .error (.missingParameter key)

def keep (owner text : String) : Act Json := do
  let limits := StringLimits.ofPrefs (← get).site.prefs
  let name ← Act.register "longString" owner (.longString text)
  return .object [("type", .str "longString"), ("actor", .str name), ("length", .nat text.length),
    ("initial", .str (limits.initial text))]

def grip (owner text : String) : Act Json := do
  if (StringLimits.ofPrefs (← get).site.prefs).isLong text then keep owner text else return .str text

def decide (text : String) (method : String) (packet : Fields) : Decision :=
  match method with
  | "substring" => do
      let first ← offset packet "start"
      let last ← offset packet "end"
      return pure [("substring", .str (slice text first last))]
  | "release" => .ok (pure [])
  | _ => .error .unrecognizedPacketType

end LongString

end RemoteInspector
