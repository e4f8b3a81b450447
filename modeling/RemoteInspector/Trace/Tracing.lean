import RemoteInspector.Script.Value
import RemoteInspector.Table
/-!
The state of tracing: which traces are active and what they asked for. It outlives its actor, because
frames entered before may still be left.
-/
namespace RemoteInspector

inductive TraceType
  | name
  | callsite
  | time
  | parameterNames
  | arguments
  | returned
  | threw
  | yielded
  deriving DecidableEq, Repr

namespace TraceType

def all : List TraceType :=
  [name, callsite, time, parameterNames, arguments, returned, threw, yielded]

def text : TraceType → String
  | name => "name"
  | callsite => "callsite"
  | time => "time"
  | parameterNames => "parameterNames"
  | arguments => "arguments"
  | returned => "return"
  | threw => "throw"
  | yielded => "yield"

def ofText? (text : String) : Option TraceType := all.find? (·.text = text)

end TraceType

/-- The active traces are listed latest first, each name once; `requests` holds one entry for every
detail of every active trace. -/
structure Tracing where
  /-- Present while attached. -/
  debugger : Option Nat := none
  active : Table String (List TraceType) := []
  /-- How many traces were ever started. -/
  total : UInt32 := 0
  requests : List TraceType := []
  sequence : Nat := 0
  deriving DecidableEq, Repr

namespace Tracing

def wants (t : Tracing) (type : TraceType) : Bool := t.requests.contains type

def withdraw (requests types : List TraceType) : List TraceType := types.foldl List.erase requests

def nameFor (t : Tracing) (given : Option String) : String :=
  given.getD ("Trace " ++ toString (t.total + 1))

/-- Starts a trace; one of the same name gives up what it asked for. Numbering starts anew where no
trace was active. -/
def start (t : Tracing) (given : Option String) (types : List TraceType) : Tracing :=
  let name := t.nameFor given
  let replaced := (t.active.get? name).getD []
  { t with
    active := (name, types) :: t.active.erase name
    total := t.total + 1
    requests := withdraw (types ++ t.requests) replaced
    sequence := if t.active.isEmpty then 0 else t.sequence }

/-- The trace a request to stop means: the latest one, unless it names another. -/
def chosen? (t : Tracing) : Option String → Option String
  | some name => if t.active.contains name then some name else none
  | none => t.active.head?.map Prod.fst

def stop (t : Tracing) (name : String) : Tracing :=
  { t with
    active := t.active.erase name
    requests := withdraw t.requests ((t.active.get? name).getD []) }

def detach (t : Tracing) : Tracing :=
  { t.active.foldl (fun t trace => t.stop trace.1) t with debugger := none }

end Tracing

end RemoteInspector
