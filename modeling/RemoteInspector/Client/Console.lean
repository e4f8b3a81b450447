import RemoteInspector.Client.EventFront
import RemoteInspector.Json.Record
/-!
Consoles on the side of the client.
-/
namespace RemoteInspector

structure EvaluationResult where
  input : String
  result : Json
  timestamp : Nat
  exception : Json
  exceptionMessage : Option String
  helperResult : Json
  deriving Repr

namespace EvaluationResult

def threw (r : EvaluationResult) : Bool := !r.exception.isNull

def ofJson? (j : Json) : Option EvaluationResult := do
  let r ← Record.ofJson? 6 j
  return {
    input := ← r.required 0 "input" Json.string?
    result := ← r.required 1 "result" some
    timestamp := ← r.required 2 "timestamp" Json.word64?
    exception := ← r.defaulted 3 "exception" some .null
    exceptionMessage := ← r.defaulted 4 "exceptionMessage" (Json.nullableOf? Json.string?) none
    helperResult := ← r.defaulted 5 "helperResult" some .null }

end EvaluationResult

namespace ConsoleFront

variable {σ : Type} [Peer σ]

def callStrings (f : EventFront) (method : String) (pairs : List (String × Option Json)) (key : String) :
    Calling σ (List String) := do
  return (Json.obj (← f.front.call method (Front.arguments pairs))).getStrings key

def startListeners (f : EventFront) (listeners : List String) : Calling σ (List String) :=
  callStrings f "startListeners" [("listeners", some (.strings listeners))] "startedListeners"

def stopListeners (f : EventFront) (listeners : Option (List String)) : Calling σ (List String) :=
  callStrings f "stopListeners" [("listeners", listeners.map .strings)] "stoppedListeners"

def cachedMessages (f : EventFront) (types : List String) : Calling σ (List Json) := do
  let reply ← f.front.call "getCachedMessages" (Front.arguments [("messageTypes", some (.strings types))])
  return (Json.obj reply).getItems "messages"

/-- Evaluates a text, with an object bound or in a frame if given. -/
def evaluate (f : EventFront) (text : String) (bound frame : Option String) :
    Calling σ EvaluationResult := do
  let reply ← f.front.call "evaluateJS" (Front.arguments [("text", some (.str text)),
    ("bindObjectActor", bound.map .str), ("frameActor", frame.map .str)])
  match EvaluationResult.ofJson? (.obj reply) with
  | some result => return result
  | none => throw (.malformed .badEvaluation)

/-- Completions of a text up to the cursor, and the beginning they complete. -/
def autocomplete (f : EventFront) (text : String) (cursor : Option Nat) :
    Calling σ (List String × String) := do
  let reply ← f.front.call "autocomplete"
    (Front.arguments [("text", some (.str text)), ("cursor", cursor.map .nat)])
  return ((Json.obj reply).getStrings "matches", ((Json.obj reply).getString? "matchProp").getD "")

def clearMessages (f : EventFront) : Calling σ Unit := do
  let _ ← f.front.call "clearMessagesCache" []
  return ()

def setPreferences (f : EventFront) (preferences : Fields) : Calling σ (List String) :=
  callStrings f "setPreferences" [("preferences", some (.obj preferences))] "updated"

end ConsoleFront

end RemoteInspector
