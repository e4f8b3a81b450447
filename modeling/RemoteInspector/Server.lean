import RemoteInspector.Serve.Connection
/-!
A server: the pages its hosts have announced and the connections of its clients. Each operation runs
until nothing is left to do, so that between operations no mail waits.
-/
namespace RemoteInspector

structure Server where
  site : Site := {}
  /-- The current page of each tab, by increasing number. -/
  tabs : Table TabId PageId := []
  /-- All connections there ever were, in order. One that has ended can still be told that a frame is
  left which it saw entered. -/
  connections : List Connection := []
  nextConnection : ConnectionId := 0
  /-- Whether hosts can still reach the server. -/
  running : Bool := true
  deriving Repr

/-- What can be seen of a server from outside: packets written to clients, connections that have
ended, and calls on hosts. -/
structure Report where
  packets : List (ConnectionId × Json)
  ended : List ConnectionId
  calls : List HostCall
  deriving Repr

namespace Server

def connection? (v : Server) (id : ConnectionId) : Option Connection :=
  v.connections.find? (·.id == id)

def onConnection (v : Server) (id : ConnectionId) (f : Scene → Scene) : Server :=
  match v.connection? id with
  | none => v
  | some conn =>
    let s := f ⟨v.site, conn⟩
    { v with
      site := s.site
      connections := v.connections.map fun c => if c.id == id then s.conn else c }

def deliver (v : Server) (letter : ConnectionId × Event) : Server :=
  v.onConnection letter.1 fun s => Serve.onEvent s letter.2

def settle (v : Server) : Server :=
  v.site.mail.foldl deliver { v with site := { v.site with mail := [] } }

def setSite (v : Server) (f : Site → Site) : Server := { v with site := f v.site }

/-- Calls in order of the connections that made them; those of no connection come first. -/
def callsInOrder (log : List LogEntry) : List HostCall :=
  let rank (e : LogEntry) : Nat := e.origin.elim 0 (· + 1)
  (log.mergeSort fun a b => decide (rank a ≤ rank b)).map (·.call)

def report (v : Server) : Report where
  packets := v.connections.flatMap fun c => c.sent.map fun packet => (c.id, packet)
  ended := (v.connections.filter fun c => c.stage == .ended).map (·.id)
  calls := callsInOrder v.site.log

def reported (v : Server) : Server :=
  { v with
    site := { v.site with log := [] }
    connections := v.connections.map fun c =>
      { c with sent := [], stage := if c.isOpen then .opened else .told } }

def broadcast (v : Server) (event : Event) : Server :=
  v.setSite fun site =>
    (v.connections.filter Connection.isOpen).foldl (fun site c => site.post c.id event) site

/-! ### Clients -/

/-- A new client. A line that cannot be shared is given up at once; one that is broken from the start
takes no greeting. -/
def connect (v : Server) (shared broken : Bool) : Server × ConnectionId :=
  let id := v.nextConnection
  let conn : Connection := { id := id, line := if broken then .broken else .up }
  let v := { v with connections := v.connections ++ [conn], nextConnection := id + 1 }
  let v := v.onConnection id fun s =>
    if shared then Serve.start s v.tabs else s.setConn fun c => { c with stage := .ended }
  (v.settle, id)

def receive (v : Server) (id : ConnectionId) (packet : Json) : Server :=
  (v.onConnection id fun s => if s.conn.isOpen then Serve.receive s packet else s).settle

def hangUp (v : Server) (id : ConnectionId) : Server :=
  (v.onConnection id fun s => if s.conn.isOpen then Serve.close s else s).settle

def breakLine (v : Server) (id : ConnectionId) : Server :=
  v.onConnection id fun s =>
    if s.conn.isOpen then s.setConn fun c => { c with line := .broken } else s

def shutdown (v : Server) : Server :=
  { v.connections.foldl (fun v c => v.hangUp c.id) v with running := false }

/-! ### Hosts -/

def newPage (v : Server) (tab : TabId) (host : String) (info : PageInfo) : Server :=
  let id := v.site.nextPage
  let page : Page := { tab := tab, host := host, info := info }
  let v := { v with tabs := v.tabs.insertBy (fun a b => decide (a < b)) tab id }
  let v := v.setSite fun site => { site with nextPage := id + 1, pages := site.pages.insert id page }
  (v.broadcast (.tabAdded tab id)).settle

/-- Changes the current page of a tab; an unknown tab has none. -/
def onPage (v : Server) (tab : TabId) (f : Page → Page) : Server :=
  match v.tabs.get? tab with
  | some id => v.setSite (·.setPage id f)
  | none => v

def titleChanged (v : Server) (tab : TabId) (title : String) : Server :=
  v.onPage tab fun p => { p with info := { p.info with title := title } }

def remember (v : Server) (tab : TabId) (message : CachedMessage) : Server :=
  if v.site.prefs.cacheConsoleMessages then
    v.onPage tab fun p => p.remember message v.site.prefs.consoleCacheLimit
  else v

def consoleMessage (v : Server) (tab : TabId) (message : ConsoleMessage) : Server :=
  ((v.remember tab (.consoleApi message)).broadcast (.consoleApi tab message)).settle

def pageError (v : Server) (tab : TabId) (error : PageError) : Server :=
  ((v.remember tab (.pageError error)).broadcast (.pageError tab error)).settle

def fileActivity (v : Server) (tab : TabId) (uri : String) : Server :=
  (v.broadcast (.fileActivity tab uri)).settle

def networkEvent (v : Server) (tab : TabId) (request : String) (event : NetworkEvent) : Server :=
  (v.broadcast (.network tab request event)).settle

def frameLoad (v : Server) (tab : TabId) (frame : NodeId) : Server :=
  (v.broadcast (.frameLoad tab frame)).settle

def documentUnload (v : Server) (tab : TabId) (document : NodeId) : Server :=
  (v.broadcast (.documentUnload tab document)).settle

def tabClosed (v : Server) (tab : TabId) : Server :=
  ({ v with tabs := v.tabs.erase tab }.broadcast (.tabClosed tab)).settle

def edit (v : Server) (host : String) (edits : List Dom.Edit) : Server :=
  (v.setSite (·.edits host edits)).settle

def addObjects (v : Server) (host : String) (objects : List (ObjectId × ScriptObject)) : Server :=
  v.setSite (·.setEngine host fun e =>
    { e with objects := objects.foldl (fun t o => t.insert o.1 o.2) e.objects })

def pause (v : Server) (host : String) (frames : List PausedFrame) : Server :=
  v.setSite (·.setEngine host fun e => { e with paused := frames })

def runHook (f : String → Act Unit) (v : Server) (hook : FrameHook) : Server :=
  v.onConnection hook.connection fun s => ((f hook.actor).run s : Id _).2

/-- Who watches the frames of a global: the enabled debuggers that debug it, in order. -/
def watchers (site : Site) (host : String) (global : GlobalId) : List FrameHook :=
  site.debuggers.filterMap fun (_, d) =>
    if d.host == host && d.enabled && d.debuggees.contains global then d.frameHook else none

def enterFrame (v : Server) (host : String) (frame : LiveFrame) : Server :=
  let hooks := watchers v.site host frame.global
  let v := v.setSite (·.setEngine host fun e => { e with stack := (frame, hooks) :: e.stack })
  hooks.foldl (runHook fun actor => Tracer.onEnter actor frame) v

/-- Leaves the youngest frame; those who saw it entered are told even if they have gone since. -/
def popFrame? (v : Server) (host : String) (completion : Completion Value) : Option Server :=
  match (v.site.engine host).stack with
  | [] => none
  | (_, hooks) :: rest =>
    let v := v.setSite (·.setEngine host fun e => { e with stack := rest })
    some (hooks.foldl (runHook fun actor => Tracer.onPop actor completion) v)

/-- A global has been made: every debugger with a hook says whether it wants to debug it. -/
def newGlobal (v : Server) (host : String) (global : GlobalId) (parent : Option GlobalId) :
    Server × List (DebuggerId × Bool) :=
  let asked := v.site.debuggers.filterMap fun (id, d) =>
    if d.host == host then d.globalHook.map fun content => (id, parent == some content) else none
  let v := asked.foldl (fun v (id, accepted) =>
    if accepted then v.setSite (·.setDebugger id fun d => { d with debuggees := d.debuggees ++ [global] })
    else v) v
  (v, asked)

end Server

end RemoteInspector
