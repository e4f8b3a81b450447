import RemoteInspector.Grip.Pool
import RemoteInspector.Scene
/-!
Tracers: a client is told of every frame entered and left while some trace is active.
-/
namespace RemoteInspector

namespace Tracer

/-- Debugs the content of the page and everything embedded in it. -/
def attach (self host : String) : Act Unit := do
  let s ← get
  let (site, id) := s.site.newDebugger s.conn.id host
  let content := (site.engine host).content
  let site := (content :: (site.engine host).childGlobals).foldl
    (fun site g => site.addDebuggee s.conn.id host id g) site
  let site := site.setGlobalHook s.conn.id id (some content)
  let site := site.setFrameHook s.conn.id id (some ⟨s.conn.id, self⟩)
  Act.site fun _ => site.setEnabled s.conn.id id false
  modify (·.setTracing self fun t => { t with debugger := some id })

def setEnabled (id : DebuggerId) (on : Bool) : Act Unit := do
  let origin := (← get).conn.id
  Act.site (·.setEnabled origin id on)

def start (self : String) (t : Tracing) (id : DebuggerId) (given : Option String)
    (types : List TraceType) : Act Unit := do
  if t.active.isEmpty then setEnabled id true
  modify (·.setTracing self fun t => t.start given types)

def stop (self : String) (t : Tracing) (id : DebuggerId) (name : String) : Act Unit := do
  modify (·.setTracing self fun t => t.stop name)
  if (t.stop name).active.isEmpty then setEnabled id false

/-- The details asked for; the first unknown one is complained of. -/
def types (packet : Fields) : Except Refusal (List TraceType) :=
  match (packet.get? "trace").bind Json.items? with
  | none => .error (.missingParameter "trace")
  | some items => items.mapM fun item =>
    match item.string?.bind TraceType.ofText? with
    | some type => .ok type
    | none => .error (.unknownTraceType item.text)

def traceReply (type name : String) : Reply :=
  [("type", .str type), ("why", .str "requested"), ("name", .str name)]

def handler (self host : String) (method : String) (packet : Fields) : Handling Unit := do
  let t := (← getThe Scene).tracing self
  let given := (packet.get? "name").bind Json.string?
  match method with
  | "attach" =>
    if t.debugger.isSome then throw .alreadyAttached
    attach self host
    Request.reply self packet
      [("type", .str "attached"), ("traceTypes", .strings (TraceType.all.map TraceType.text))]
  | "detach" =>
    modifyThe Scene (·.detach self)
    Request.reply self packet [("type", .str "detached")]
  | "startTrace" =>
    let types ← types packet
    match t.debugger with
    | none => throw .notAttached
    | some id =>
      start self t id given types
      Request.reply self packet (traceReply "startedTrace" (t.nameFor given))
  | "stopTrace" =>
    match t.debugger, t.active.isEmpty with
    | some id, false =>
      match t.chosen? given with
      | none => throw (given.elim .internal .noSuchTrace)
      | some name =>
        stop self t id name
        Request.reply self packet (traceReply "stoppedTrace" name)
    | _, _ => throw .noActiveTraces
  | _ => throw .unrecognizedPacketType

/-! ### Frames -/

def frameName (site : Site) (f : LiveFrame) : String :=
  match f.callee with
  | some ref => (site.object ref).displayName.getD "(anonymous function)"
  | none => "(" ++ f.kind ++ ")"

def detail (t : Tracing) (type : TraceType) (member : Option Json) : List (String × Json) :=
  if t.wants type then (member.map fun j => (type.text, j)).toList else []

def callsite (l : ScriptLocation) : Json :=
  .object [("url", .str l.url), ("line", .nat l.line), ("column", .nat (l.column.getD 0))]

def pooledArguments (site : Site) (t : Tracing) (f : LiveFrame) : Site × List (String × Json) :=
  match f.arguments with
  | some values =>
    if t.wants .arguments then
      let (site, grips, pool) := Pool.gripAll site values
      (site, [("arguments", .object [("values", .arr grips), ("objectPool", .arr pool)])])
    else (site, [])
  | none => (site, [])

def pooledValue (site : Site) (v : Value) : Site × Json :=
  let (site, grips, pool) := Pool.gripAll site [v]
  (site, .object [("value", .optional grips.head?), ("objectPool", .arr pool)])

def entered (site : Site) (t : Tracing) (f : LiveFrame) : Site × List (String × Json) :=
  let (after, arguments) := pooledArguments site t f
  (after, detail t .name (some (.str (frameName site f))) ++
    detail t .callsite (f.location.map callsite) ++
    detail t .time (some (.nat site.clock)) ++
    detail t .parameterNames (f.callee.bind fun _ => f.parameters.map Json.strings) ++ arguments)

def ending : Completion Value → Option (TraceType × Value)
  | .returned v => some (.returned, v)
  | .threw v => some (.threw, v)
  | .yielded v => some (.yielded, v)
  | .terminated => none

def exited (site : Site) (t : Tracing) (completion : Completion Value) : Site × List (String × Json) :=
  let time := detail t .time (some (.nat site.clock))
  match ending completion with
  | some (type, v) =>
    if t.wants type then
      let (after, grip) := pooledValue site v
      (after, time ++ [(type.text, grip)])
    else (site, time)
  | none => (site, time)

/-- Takes a number, and keeps in mind what is asked for at that moment. -/
def claim (self : String) : Act Tracing := do
  let t := (← get).tracing self
  modify (·.setTracing self fun t => { t with sequence := t.sequence + 1 })
  return t

/-- Writes the packet for a number taken before. The details are found out first, which may run code of
the page and so make the tracer take more numbers. -/
def conclude (self type : String) (details : Site → Tracing → Site × List (String × Json))
    (t : Tracing) : Act Unit := do
  let (site, members) := details (← get).site t
  Act.site fun _ => site
  Act.event (.object ([("from", .str self), ("type", .str type), ("sequence", .nat t.sequence)] ++
    members))

def report (self type : String) (details : Site → Tracing → Site × List (String × Json)) : Act Unit := do
  conclude self type details (← claim self)

def onEnter (self : String) (f : LiveFrame) : Act Unit :=
  report self "enteredFrame" fun site t => entered site t f

def onPop (self : String) (completion : Completion Value) : Act Unit :=
  report self "exitedFrame" fun site t => exited site t completion

end Tracer

end RemoteInspector
