import RemoteInspector.Serve.Request
/-!
The life of a connection: it greets its client, answers packets and follows events until one side has
enough. A connection that ends gives back everything it holds.
-/
namespace RemoteInspector

namespace Connection

def isOpen (c : Connection) : Bool := c.stage == .opened

end Connection

namespace Serve

/-- Everything held is given back. The line is shut down as well, but some lines take packets even then:
those written later count as sent. -/
def close (s : Scene) : Scene := s.releaseAll.setConn fun c => { c with stage := .ended }

def start (s : Scene) (tabs : Table TabId PageId) : Scene :=
  let act : Act Unit := do
    Act.registerAs Tabs.rootName none (.root {})
    tabs.forM fun (tab, page) => Tabs.add tab page
  let (_, s) := (act.run s : Id _)
  let s := s.write Tabs.greeting
  if s.conn.line == .up then s else close s

/-- A packet from the client. What is no object is ignored. -/
def receive (s : Scene) (packet : Json) : Scene :=
  match packet with
  | .obj fields =>
    let (s, goOn) := Request.handle s fields
    if goOn then s else close s
  | _ => s

def walkers (s : Scene) (tab : TabId) : Act (List String) :=
  match Tabs.tab? s tab with
  | some t => Inspector.walkers t.inspector
  | none => return []

def follow (s : Scene) : Event → Act Unit
  | .changes walker changes => Walker.onChanges walker changes
  | .tabAdded tab page => Tabs.add tab page
  | .tabClosed tab => Tabs.remove tab
  | .consoleApi tab message =>
    match Tabs.console? s tab with
    | some (name, c) => Console.onMessage name c message
    | none => return ()
  | .pageError tab error =>
    match Tabs.console? s tab with
    | some (name, c) => Console.onPageError name c error
    | none => return ()
  | .fileActivity tab uri =>
    match Tabs.console? s tab with
    | some (name, c) => Console.onFileActivity name c uri
    | none => return ()
  | .network tab request event =>
    match Tabs.console? s tab with
    | some (name, c) => Network.onEvent name c request event
    | none => return ()
  | .frameLoad tab frame => do
      (← walkers s tab).forM fun walker => Walker.onFrameLoad walker frame
  | .documentUnload tab document => do
      (← walkers s tab).forM fun walker => Walker.onDocumentUnload walker document

def onEvent (s : Scene) (event : Event) : Scene :=
  if s.conn.isOpen then ((follow s event).run s : Id _).2 else s

end Serve

end RemoteInspector
