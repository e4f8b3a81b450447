import RemoteInspector.Json.Record
import RemoteInspector.Script.Value
/-!
What a page says on its console: messages with live values, and errors with text alone.
-/
namespace RemoteInspector

inductive LogLevel
  | log
  | debug
  | info
  | warn
  | error
  | clear
  | trace
  deriving DecidableEq, Repr

namespace LogLevel

def all : List LogLevel := [log, debug, info, warn, error, clear, trace]

def name : LogLevel → String
  | log => "log"
  | debug => "debug"
  | info => "info"
  | warn => "warn"
  | error => "error"
  | clear => "clear"
  | trace => "trace"

def ofName? (name : String) : Option LogLevel := all.find? (·.name = name)

/-- A level by its name, or as an object of that name alone with nothing in it. -/
def ofJson? : Json → Option LogLevel
  | .str s => ofName? s
  | .obj [(s, .null)] => ofName? s
  | _ => none

end LogLevel

structure StackFrame where
  filename : String
  functionName : String
  columnNumber : Nat
  lineNumber : Nat
  deriving DecidableEq, Repr

namespace StackFrame

def toJson (f : StackFrame) : Json :=
  .object [("filename", .str f.filename), ("functionName", .str f.functionName),
    ("columnNumber", .nat f.columnNumber), ("lineNumber", .nat f.lineNumber)]

def ofJson? (j : Json) : Option StackFrame := do
  let r ← Record.ofJson? 4 j
  return {
    filename := ← r.required 0 "filename" Json.string?
    functionName := ← r.required 1 "functionName" Json.string?
    columnNumber := ← r.required 2 "columnNumber" Json.word32?
    lineNumber := ← r.required 3 "lineNumber" Json.word32? }

end StackFrame

structure ConsoleMessage where
  level : LogLevel
  filename : String
  lineNumber : Nat
  columnNumber : Nat
  functionName : String
  timeStamp : Nat
  arguments : List Value
  stack : Option (List StackFrame)
  deriving DecidableEq, Repr

structure PageError where
  errorMessage : String
  sourceName : String
  lineText : String
  lineNumber : Nat
  columnNumber : Nat
  category : String
  timeStamp : Nat
  error : Bool
  warning : Bool
  exception : Bool
  strict : Bool
  isPrivate : Bool
  deriving DecidableEq, Repr

namespace PageError

def members (e : PageError) : List (String × Json) :=
  [("errorMessage", .str e.errorMessage), ("sourceName", .str e.sourceName),
    ("lineText", .str e.lineText), ("lineNumber", .nat e.lineNumber),
    ("columnNumber", .nat e.columnNumber), ("category", .str e.category),
    ("timeStamp", .nat e.timeStamp), ("error", .bool e.error), ("warning", .bool e.warning),
    ("exception", .bool e.exception), ("strict", .bool e.strict), ("private", .bool e.isPrivate)]

def toJson (e : PageError) : Json := .object e.members

def ofJson? (j : Json) : Option PageError := do
  let r ← Record.ofJson? 12 j
  return {
    errorMessage := ← r.required 0 "errorMessage" Json.string?
    sourceName := ← r.required 1 "sourceName" Json.string?
    lineText := ← r.required 2 "lineText" Json.string?
    lineNumber := ← r.required 3 "lineNumber" Json.word32?
    columnNumber := ← r.required 4 "columnNumber" Json.word32?
    category := ← r.required 5 "category" Json.string?
    timeStamp := ← r.required 6 "timeStamp" Json.word64?
    error := ← r.required 7 "error" Json.bool?
    warning := ← r.required 8 "warning" Json.bool?
    exception := ← r.required 9 "exception" Json.bool?
    strict := ← r.required 10 "strict" Json.bool?
    isPrivate := ← r.required 11 "private" Json.bool? }

end PageError

inductive CachedMessage
  | consoleApi (message : ConsoleMessage)
  | pageError (error : PageError)
  deriving DecidableEq, Repr

def CachedMessage.timeStamp : CachedMessage → Nat
  | .consoleApi message => message.timeStamp
  | .pageError error => error.timeStamp

end RemoteInspector
