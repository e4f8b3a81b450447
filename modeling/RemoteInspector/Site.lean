import RemoteInspector.Dom.Edit
import RemoteInspector.Network.Event
import RemoteInspector.Page
import RemoteInspector.Prefs
import RemoteInspector.Script.Engine
/-!
The site of a server: the hosts it looks into, the observers and debuggers it has on them, the pages
they announced, and the mail waiting for connections. Every call on a host is noted in a log.
-/
namespace RemoteInspector

abbrev ObserverId := Nat

abbrev DebuggerId := Nat

/-- Connections do not run out of numbers. -/
abbrev ConnectionId := Nat

/-- Watches a document for a walker of a connection. -/
structure Observer where
  target : NodeId
  connection : ConnectionId
  walker : String
  deriving DecidableEq, Repr

structure Host where
  dom : Dom := {}
  observers : Table ObserverId Observer := []
  engine : Engine := {}
  deriving Repr

def Host.describe (h : Host) : String :=
  "TabHost \x7b root_document: NodeId(" ++ toString h.dom.root ++ "), .. \x7d"

structure Debugger where
  host : String
  enabled : Bool := false
  debuggees : List GlobalId := []
  frameHook : Option FrameHook := none
  /-- Accepts new globals embedded in this one. -/
  globalHook : Option GlobalId := none
  deriving DecidableEq, Repr

inductive HostCall
  | observe (observer : ObserverId) (node : NodeId)
  | disconnect (observer : ObserverId)
  | setNodeValue (node : NodeId) (taken : Bool)
  | call (object : ObjectId) (receiver : String)
  | newDebugger (id : DebuggerId)
  | dropDebugger (id : DebuggerId)
  | addDebuggee (id : DebuggerId) (global : GlobalId) (taken : Bool)
  | removeDebuggee (id : DebuggerId) (global : GlobalId)
  | frameHook (id : DebuggerId) (on : Bool)
  | globalHook (id : DebuggerId) (on : Bool)
  | enabled (id : DebuggerId) (on : Bool)
  | eval (id : DebuggerId) (target : EvalTarget) (names : List String) (source : String)
  deriving DecidableEq, Repr

namespace HostCall

def onOff (on : Bool) : String := if on then "on" else "off"

def render : HostCall → String
  | observe observer node => "observe " ++ toString observer ++ " " ++ toString node
  | disconnect observer => "disconnect " ++ toString observer
  | setNodeValue node taken => "setNodeValue " ++ toString node ++ " " ++ toString taken
  | call object receiver => "call " ++ toString object ++ " " ++ receiver
  | newDebugger id => "newDebugger " ++ toString id
  | dropDebugger id => "dropDebugger " ++ toString id
  | addDebuggee id global taken =>
    "addDebuggee " ++ toString id ++ " g" ++ toString global ++ " " ++ toString taken
  | removeDebuggee id global => "removeDebuggee " ++ toString id ++ " g" ++ toString global
  | frameHook id on => "frameHook " ++ toString id ++ " " ++ onOff on
  | globalHook id on => "globalHook " ++ toString id ++ " " ++ onOff on
  | enabled id on => "enabled " ++ toString id ++ " " ++ onOff on
  | eval id target names source =>
    "eval " ++ toString id ++ " " ++ target.label ++ " [" ++ ",".intercalate names ++ "] " ++ source

end HostCall

/-- What reaches a connection from elsewhere than its client. -/
inductive Event
  | changes (walker : String) (changes : List Dom.Change)
  | tabAdded (tab : TabId) (page : PageId)
  | tabClosed (tab : TabId)
  | consoleApi (tab : TabId) (message : ConsoleMessage)
  | pageError (tab : TabId) (error : PageError)
  | fileActivity (tab : TabId) (uri : String)
  | network (tab : TabId) (request : String) (event : NetworkEvent)
  | frameLoad (tab : TabId) (frame : NodeId)
  | documentUnload (tab : TabId) (document : NodeId)
  deriving DecidableEq, Repr

structure LogEntry where
  origin : Option ConnectionId
  call : HostCall
  deriving DecidableEq, Repr

structure Site where
  prefs : Prefs := {}
  /-- Milliseconds, as the site's clock shows them. -/
  clock : Nat := 0
  hosts : Table String Host := []
  nextObserver : ObserverId := 1
  nextDebugger : DebuggerId := 1
  debuggers : Table DebuggerId Debugger := []
  nextPage : PageId := 0
  pages : Table PageId Page := []
  mail : List (ConnectionId × Event) := []
  log : List LogEntry := []
  deriving Repr

namespace Site

def note (s : Site) (origin : Option ConnectionId) (call : HostCall) : Site :=
  { s with log := s.log ++ [⟨origin, call⟩] }

def host (s : Site) (name : String) : Host := (s.hosts.get? name).getD {}

def dom (s : Site) (name : String) : Dom := (s.host name).dom

def engine (s : Site) (name : String) : Engine := (s.host name).engine

def object (s : Site) (ref : ObjectRef) : ScriptObject := (s.engine ref.host).object ref.id

def className (s : Site) (ref : ObjectRef) : String := (s.object ref).className

def objectCount (s : Site) : Nat :=
  s.hosts.foldl (fun n h => n + h.2.engine.objects.length) 0

def setHost (s : Site) (name : String) (f : Host → Host) : Site :=
  { s with hosts := s.hosts.insert name (f (s.host name)) }

def setEngine (s : Site) (name : String) (f : Engine → Engine) : Site :=
  s.setHost name fun h => { h with engine := f h.engine }

def setDebugger (s : Site) (id : DebuggerId) (f : Debugger → Debugger) : Site :=
  { s with debuggers := s.debuggers.modify id f }

def page? (s : Site) (id : PageId) : Option Page := s.pages.get? id

def setPage (s : Site) (id : PageId) (f : Page → Page) : Site :=
  { s with pages := s.pages.modify id f }

/-! ### Documents -/

/-- Starts to watch a node for all changes at or below it. -/
def observe (s : Site) (origin : ConnectionId) (host : String) (node : NodeId) (walker : String) :
    Site × ObserverId :=
  let id := s.nextObserver
  let s := s.setHost host fun h =>
    { h with observers := h.observers.insert id ⟨node, origin, walker⟩ }
  ({ s with nextObserver := id + 1 }.note (some origin) (.observe id node), id)

def disconnect (s : Site) (origin : ConnectionId) (host : String) (id : ObserverId) : Site :=
  (s.setHost host fun h => { h with observers := h.observers.erase id }).note (some origin)
    (.disconnect id)

/-- The observers that a change concerns, in order of their numbers. -/
def interested (s : Site) (host : String) (change : Dom.Change) : List (ObserverId × Observer) :=
  let d := s.dom host
  ((s.host host).observers.filter fun (_, o) => d.isWithin o.target d.reach change.target).mergeSort
    fun a b => decide (a.1 ≤ b.1)

def post (s : Site) (connection : ConnectionId) (event : Event) : Site :=
  { s with mail := s.mail ++ [(connection, event)] }

def announce (s : Site) (host : String) (change : Dom.Change) : Site :=
  (s.interested host change).foldl
    (fun s (_, o) => s.post o.connection (.changes o.walker [change])) s

/-- Sets the value of a node for an inspector, and tells the observers. -/
def setNodeValue (s : Site) (origin : ConnectionId) (host : String) (node : NodeId)
    (value : String) : Site :=
  match (s.dom host).setValue? node value with
  | none => s.note (some origin) (.setNodeValue node false)
  | some dom =>
    let s := (s.setHost host fun h => { h with dom := dom }).note (some origin)
      (.setNodeValue node true)
    s.announce host (.characterData node)

def edit (s : Site) (host : String) (e : Dom.Edit) :
    Site × List (ObserverId × Observer × Dom.Change) :=
  let (dom, changes) := (s.dom host).edit e
  let s := s.setHost host fun h => { h with dom := dom }
  (s, changes.flatMap fun c => (s.interested host c).map fun (id, o) => (id, o, c))

/-- A batch of edits: each observer hears of all that concerns it in one letter, observers in order
of their numbers. -/
def edits (s : Site) (host : String) (es : List Dom.Edit) : Site :=
  let (s, found) := es.foldl (fun (s, found) e =>
    let (s, more) := s.edit host e
    (s, found ++ more)) (s, [])
  let ids := ((found.map (·.1)).eraseDups).mergeSort fun a b => decide (a ≤ b)
  ids.foldl (fun s id =>
    match found.find? (·.1 == id) with
    | some (_, o, _) =>
      s.post o.connection (.changes o.walker ((found.filter (·.1 == id)).map (·.2.2)))
    | none => s) s

/-! ### Scripts -/

def callObject (s : Site) (origin : Option ConnectionId) (ref : ObjectRef) (receiver : Value) :
    Site × Completion Value :=
  (s.note origin (.call ref.id (receiver.describe s.className)),
    (s.object ref).call.map (Expr.valueWith (some receiver)))

def makeArray (s : Site) (host : String) (values : List Value) : Site × Value :=
  let (engine, id) := (s.engine host).makeArray values
  (s.setEngine host fun _ => engine, .object ⟨host, id⟩)

def newDebugger (s : Site) (origin : ConnectionId) (host : String) : Site × DebuggerId :=
  let id := s.nextDebugger
  ({ s with nextDebugger := id + 1, debuggers := s.debuggers.insert id { host := host } }.note
    (some origin) (.newDebugger id), id)

def dropDebugger (s : Site) (origin : ConnectionId) (id : DebuggerId) : Site :=
  { s with debuggers := s.debuggers.erase id }.note (some origin) (.dropDebugger id)

def addDebuggee (s : Site) (origin : ConnectionId) (host : String) (id : DebuggerId)
    (global : GlobalId) : Site :=
  if global ∈ (s.engine host).denied then s.note (some origin) (.addDebuggee id global false)
  else
    (s.setDebugger id fun d =>
      { d with debuggees := if global ∈ d.debuggees then d.debuggees else d.debuggees ++ [global] }).note
      (some origin) (.addDebuggee id global true)

def removeDebuggee (s : Site) (origin : ConnectionId) (id : DebuggerId) (global : GlobalId) : Site :=
  (s.setDebugger id fun d => { d with debuggees := d.debuggees.filter (· ≠ global) }).note
    (some origin) (.removeDebuggee id global)

def setFrameHook (s : Site) (origin : ConnectionId) (id : DebuggerId) (hook : Option FrameHook) : Site :=
  (s.setDebugger id fun d => { d with frameHook := hook }).note (some origin)
    (.frameHook id hook.isSome)

def setGlobalHook (s : Site) (origin : ConnectionId) (id : DebuggerId) (hook : Option GlobalId) : Site :=
  (s.setDebugger id fun d => { d with globalHook := hook }).note (some origin)
    (.globalHook id hook.isSome)

def setEnabled (s : Site) (origin : ConnectionId) (id : DebuggerId) (on : Bool) : Site :=
  (s.setDebugger id fun d => { d with enabled := on }).note (some origin) (.enabled id on)

end Site

end RemoteInspector
