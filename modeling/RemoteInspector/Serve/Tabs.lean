import RemoteInspector.Scene
/-!
The root actor and its tabs. A tab announced again gets a new actor, and what was built on the old one
is released.
-/
namespace RemoteInspector

namespace Tabs

def rootName : String := "root"

def greeting : Json :=
  .object [("from", .str rootName), ("applicationType", .str "browser"),
    ("traits", .object [("sources", .bool false), ("highlightable", .bool false),
      ("customHighlighters", .bool false), ("networkMonitor", .bool true), ("traceTypes", .bool true)])]

def root (s : Scene) : RootActor :=
  match s.find? rootName with
  | some (.root actor) => actor
  | _ => {}

def updateRoot (f : RootActor → RootActor) : Act Unit :=
  Act.update rootName fun
    | .root actor => .root (f actor)
    | other => other

def tab? (s : Scene) (tab : TabId) : Option TabActor :=
  ((root s).tabs.get? tab).bind fun name => (s.find? name).bind Actor.tab?

def console? (s : Scene) (tab : TabId) : Option (String × ConsoleActor) :=
  (tab? s tab).bind fun t => (s.console? t.console).map fun c => (t.console, c)

def form? (s : Scene) (name : String) : Option Json := do
  let t ← (s.find? name).bind Actor.tab?
  let page ← s.site.page? t.page
  return .object [("actor", .str name), ("title", .str page.info.title), ("url", .str page.info.url),
    ("inspectorActor", .str t.inspector), ("traceActor", .str t.tracer),
    ("consoleActor", .str t.console), ("threadActor", .str t.thread)]

def register (id : PageId) (page : Page) : Act String := do
  let name ← Act.newName "tab"
  let inspector ← Act.register "inspector" name (.inspector { host := page.host })
  let tracer ← Act.register "trace" name (.trace page.host)
  let thread ← Act.register "thread" name (.thread { host := page.host })
  let console ← Act.register "console" name (.console { page := id, host := page.host })
  Act.registerAs name (some rootName) (.tab ⟨id, inspector, tracer, console, thread⟩)
  return name

def add (tab : TabId) (id : PageId) : Act Unit := do
  let s ← get
  match s.site.page? id with
  | none => return ()
  | some page =>
    let name ← register id page
    updateRoot fun r => { r with tabs := r.tabs.insertBy (fun a b => decide (a < b)) tab name }
    match (root s).tabs.get? tab with
    | some previous => Act.release previous
    | none => return ()

def remove (tab : TabId) : Act Unit := do
  let s ← get
  updateRoot fun r => { r with tabs := r.tabs.erase tab }
  match (root s).tabs.get? tab with
  | some name => Act.release name
  | none => return ()

def decideRoot (s : Scene) (actor : RootActor) (method : String) : Decision :=
  match method with
  | "listTabs" => .ok (pure [("selected", .nat 0), ("tabs", .arr (actor.tabs.values.filterMap (form? s)))])
  | "protocolDescription" =>
    .ok (pure [("types", .object (Schema.all.map fun schema => (schema.typeName, schema.description)))])
  | _ => .error .unrecognizedPacketType

def decideTab (t : TabActor) (method : String) : Decision :=
  match method with
  | "attach" => .ok (pure [("type", .str "tabAttached"), ("threadActor", .str t.thread)])
  | "detach" => .ok (pure [("type", .str "detached")])
  | _ => .error .unrecognizedPacketType

end Tabs

end RemoteInspector
