import RemoteInspector.Dom.Selector
import RemoteInspector.Grip.Object
/-!
Evaluations on a console, each with a set of helper names of its own.
-/
namespace RemoteInspector

inductive Helper
  | query
  | queryAll
  | keys
  | values
  | clear
  | help
  | inspect
  deriving DecidableEq, Repr

/-- What a helper asks the client to do after an evaluation. -/
inductive Wish
  | clearOutput
  | openHelp
  | inspectObject (value : Value)
  deriving DecidableEq, Repr

inductive Binding
  | value (value : Value)
  | function (helper : Helper)
  deriving DecidableEq, Repr

abbrev Bindings := Table String Binding

namespace Binding

def describe (classOf : ObjectRef → String) : Binding → String
  | value v => "Value(" ++ v.describe classOf ++ ")"
  | function _ => "Function"

end Binding

namespace Evaluation

/-- The state of an evaluation: the site it may change, and the wish so far. -/
structure Run where
  site : Site
  wish : Option Wish := none
  deriving Repr

def bindings (lastResult : Value) (self : Option ObjectRef) : Bindings :=
  [("$", .function .query), ("$$", .function .queryAll), ("$_", .value lastResult)] ++
    (self.map fun ref => ("_self", Binding.value (.object ref))).toList ++
    [("clear", .function .clear), ("help", .function .help), ("inspect", .function .inspect),
      ("keys", .function .keys), ("values", .function .values)]

def yielding : List String := ["$", "$$"]

def selected (d : Dom) : Option Value → Option (List NodeId)
  | some (.string text) => (Selector.parse? text).map fun s => s.select d d.root
  | _ => none

def propertyNames (site : Site) (v : Option Value) : List String :=
  match v.bind Value.object? with
  | some ref => (site.object ref).ownPropertyNames.toOption.getD []
  | none => []

def propertyValues (site : Site) (v : Option Value) : List Value :=
  match v.bind Value.object? with
  | none => []
  | some ref =>
    (propertyNames site v).filterMap fun name =>
      match (site.object ref).ownProperty name with
      | .ok (some ⟨_, _, .data value _⟩) => some value
      | _ => none

def nodeValue (host : String) (node : NodeId) : Value := .object ⟨host, Engine.nodeObject node⟩

def array (host : String) (values : List Value) (r : Run) : Run × Value :=
  let (site, v) := r.site.makeArray host values
  ({ r with site := site }, v)

def callHelper (host : String) (r : Run) (arguments : List Value) : Helper → Run × Value
  | .query =>
    match (selected (r.site.dom host) arguments.head?).bind List.head? with
    | some node => (r, nodeValue host node)
    | none => (r, .null)
  | .queryAll =>
    array host (((selected (r.site.dom host) arguments.head?).getD []).map (nodeValue host)) r
  | .keys => array host ((propertyNames r.site arguments.head?).map .string) r
  | .values => array host (propertyValues r.site arguments.head?) r
  | .clear => ({ r with wish := some .clearOutput }, .undefined)
  | .help => ({ r with wish := some .openHelp }, .undefined)
  | .inspect => ({ r with wish := some (.inspectObject (arguments.head?.getD .undefined)) }, .undefined)

def boundValue (b : Bindings) (name : String) : Value :=
  match b.get? name with
  | some (.value v) => v
  | some (.function _) => Expr.function
  | none => Expr.missing

mutual

/-- The value of an expression, with the effects of the helpers it calls. -/
def value (host : String) (b : Bindings) (r : Run) : Expr → Run × Value
  | .const v => (r, v)
  | .receiver => (r, .undefined)
  | .bound name => (r, boundValue b name)
  | .call name arguments =>
    let (r, arguments) := values host b r arguments
    match b.get? name with
    | some (.function helper) => callHelper host r arguments helper
    | _ => (r, Expr.notFunction)

def values (host : String) (b : Bindings) (r : Run) : List Expr → Run × List Value
  | [] => (r, [])
  | e :: rest =>
    let (r, v) := value host b r e
    let (r, vs) := values host b r rest
    (r, v :: vs)

end

def completion (host : String) (b : Bindings) (r : Run) : Completion Expr → Run × Completion Value
  | .returned e =>
    let (r, v) := value host b r e
    (r, .returned v)
  | .threw e =>
    let (r, v) := value host b r e
    (r, .threw v)
  | .yielded e =>
    let (r, v) := value host b r e
    (r, .yielded v)
  | .terminated => (r, .terminated)

def run (site : Site) (origin : ConnectionId) (host : String) (id : DebuggerId) (target : EvalTarget)
    (b : Bindings) (source : String) : Run × Completion Value :=
  let r : Run := { site := site.note (some origin) (.eval id target b.keys source) }
  let (before, result) := (r.site.engine host).rule target source
  let (r, _) := values host b r before
  completion host b r result

/-- The message of something thrown, as the engine of `host` knows it. -/
def errorMessage? (site : Site) (host : String) : Value → Option String
  | .string s => some s
  | .object ref => ((site.engine host).objects.get? ref.id).bind (·.message)
  | _ => none

/-- Help is easy to guess: the call is optional. -/
def sourceOf (text : String) : String :=
  let word := Text.trim text
  if word = "help" ∨ word = "?" then "help()" else text

/-- The debugger of a console, made when it is first needed. -/
def debugger (console : String) (c : ConsoleActor) : Act DebuggerId :=
  match c.debugger with
  | some id => return id
  | none => do
      let s ← get
      let (site, id) := s.site.newDebugger s.conn.id c.host
      Act.site fun _ => site.addDebuggee s.conn.id c.host id (site.engine c.host).content
      Act.updateConsole console fun c => { c with debugger := some id }
      return id

/-- Where an evaluation runs: in a frame if one is given, else in the global of the bound object. -/
def targetOf (content : GlobalId) (frame : Option FrameId) (global : Option GlobalId) : EvalTarget :=
  match frame with
  | some f => .frame f
  | none => .global (global.getD content)

/-- Runs a source on a console. The global of a bound object from elsewhere is debugged only as long
as the evaluation takes. -/
def evaluate (console : String) (c : ConsoleActor) (target : EvalTarget) (self : Option ObjectRef)
    (source : String) : Act (Completion Value × Option Wish) := do
  let id ← debugger console c
  let s ← get
  let engine := s.site.engine c.host
  let b := (bindings c.lastResult self).filter fun (name, _) =>
    !(yielding.contains name && engine.bindsIn name target)
  let origin := s.conn.id
  let foreign? :=
    match target with
    | .global g => if g = engine.content then none else some g
    | .frame _ => none
  let entered := foreign?.elim s.site (s.site.addDebuggee origin c.host id)
  let (r, result) := run entered origin c.host id target b source
  Act.site fun _ => foreign?.elim r.site (r.site.removeDebuggee origin id)
  return (result, r.wish)

def wishForm (console source : String) : Option Wish → Act Json
  | none => return .null
  | some .clearOutput => return .object [("type", .str "clearOutput")]
  | some .openHelp => return .object [("type", .str "openHelp")]
  | some (.inspectObject v) => do
      return .object [("type", .str "inspectObject"), ("input", .str source),
        ("object", ← Grip.owned console v)]

def reply (console : String) (c : ConsoleActor) (text : String) (bound frame : Option String) :
    Act Reply := do
  let s ← get
  let source := sourceOf text
  let self := (bound.bind fun name => (s.find? name).bind Actor.object?).map (·.object)
  let frame := (frame.bind fun name => (s.find? name).bind Actor.frame?).map (·.frame.id)
  let target := targetOf (s.site.engine c.host).content frame
    (self.bind fun ref => (s.site.object ref).global)
  let (result, wish) ← evaluate console c target self source
  let site := (← get).site
  let message :=
    match result with
    | .threw v => errorMessage? site c.host v
    | _ => none
  match result.result? with
  | some v => Act.updateConsole console fun c => { c with lastResult := v }
  | none => pure ()
  let shown ←
    match result.result? with
    | some v => Grip.owned console v
    | none => pure Grip.undefined
  let exception ←
    match result with
    | .threw v => Grip.owned console v
    | _ => pure .null
  let wished ← wishForm console source wish
  return [("input", .str text), ("result", shown), ("timestamp", .nat s.site.clock),
    ("exception", exception), ("exceptionMessage", .optional (message.map .str)),
    ("helperResult", wished)]

end Evaluation

end RemoteInspector
