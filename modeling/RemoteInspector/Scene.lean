import RemoteInspector.Registry
import RemoteInspector.Trace.Tracing
/-!
A connection and the site around it, with the steps that all actors are made of: finding, registering
and releasing actors, and sending packets.
-/
namespace RemoteInspector

/-- The way to the client: writes to a broken line fail. -/
inductive Line
  | up
  | broken
  deriving DecidableEq, Repr

/-- A connection is open until one side has enough, and its end is told once. -/
inductive Stage
  | opened
  | ended
  | told
  deriving DecidableEq, Repr

structure Connection where
  id : ConnectionId
  registry : Registry := {}
  /-- The tracing state of every trace actor there ever was. -/
  tracings : Table String Tracing := []
  line : Line := .up
  stage : Stage := .opened
  /-- The packets written to the client, which may go on after the end. -/
  sent : List Json := []
  deriving Repr

structure Scene where
  site : Site
  conn : Connection
  deriving Repr

abbrev Act := StateM Scene

namespace Scene

def find? (s : Scene) (name : String) : Option Actor := s.conn.registry.find? name

def walker? (s : Scene) (name : String) : Option WalkerActor := (s.find? name).bind Actor.walker?

def node? (s : Scene) (name : String) : Option NodeActor := (s.find? name).bind Actor.node?

def console? (s : Scene) (name : String) : Option ConsoleActor := (s.find? name).bind Actor.console?

def tracing (s : Scene) (name : String) : Tracing := (s.conn.tracings.get? name).getD {}

def lookupNode (s : Scene) (name : String) : Except Refusal NodeId :=
  match s.node? name with
  | some actor => .ok actor.node
  | none => .error (.noSuchActor name)

def setSite (s : Scene) (f : Site → Site) : Scene := { s with site := f s.site }

def setConn (s : Scene) (f : Connection → Connection) : Scene := { s with conn := f s.conn }

def setRegistry (s : Scene) (f : Registry → Registry) : Scene :=
  s.setConn fun c => { c with registry := f c.registry }

def update (s : Scene) (name : String) (f : Actor → Actor) : Scene := s.setRegistry (·.update name f)

def setTracing (s : Scene) (name : String) (f : Tracing → Tracing) : Scene :=
  s.setConn fun c => { c with tracings := c.tracings.insert name (f (s.tracing name)) }

/-- Writes a packet; nothing happens where the line is broken. -/
def write (s : Scene) (packet : Json) : Scene :=
  match s.conn.line with
  | .up => s.setConn fun c => { c with sent := c.sent ++ [packet] }
  | .broken => s

/-- Ends tracing and takes the debugger down, if the actor is attached. -/
def detach (s : Scene) (name : String) : Scene :=
  let t := s.tracing name
  match t.debugger with
  | none => s
  | some id =>
    let off (site : Site) : Site := site.setEnabled s.conn.id id false
    let s := if t.active.isEmpty then s else s.setSite off
    let s := s.setSite fun site =>
      (((off site).setFrameHook s.conn.id id none).setGlobalHook s.conn.id id none).dropDebugger
        s.conn.id id
    s.setTracing name Tracing.detach

/-- What an actor that has left the registry gives back. -/
def destroy (s : Scene) (name : String) : Actor → Scene
  | .node actor =>
    let s :=
      match actor.observer with
      | some id => s.setSite (·.disconnect s.conn.id actor.host id)
      | none => s
    s.update actor.walker fun
      | .walker w => .walker (w.forget actor.node name)
      | other => other
  | .console actor =>
    match actor.debugger with
    | some id => s.setSite (·.dropDebugger s.conn.id id)
    | none => s
  | .network actor =>
    s.update actor.console fun
      | .console c => .console (c.forgetActor name)
      | other => other
  | .trace _ => s.detach name
  | _ => s

def releaseOne (s : Scene) (name : String) : Scene :=
  match s.find? name with
  | some actor => (s.setRegistry (·.remove name)).destroy name actor
  | none => s

def release (s : Scene) (name : String) : Scene :=
  (s.conn.registry.releaseOrder s.conn.registry.entries.length name).foldl releaseOne s

def releaseAll (s : Scene) : Scene := s.conn.registry.roots.foldl release s

end Scene

namespace Act

def newName (kind : String) : Act String := do
  let s ← get
  let name := s.conn.registry.newName s.conn.id kind
  set (s.setRegistry fun r => { r with next := r.next + 1 })
  return name

def registerAs (name : String) (owner : Option String) (actor : Actor) : Act Unit :=
  modify (·.setRegistry (·.add ⟨name, owner, actor⟩))

def register (kind owner : String) (actor : Actor) : Act String := do
  let name ← newName kind
  registerAs name (some owner) actor
  return name

def update (name : String) (f : Actor → Actor) : Act Unit := modify (·.update name f)

def updateWalker (name : String) (f : WalkerActor → WalkerActor) : Act Unit :=
  update name fun
    | .walker w => .walker (f w)
    | other => other

def updateConsole (name : String) (f : ConsoleActor → ConsoleActor) : Act Unit :=
  update name fun
    | .console c => .console (f c)
    | other => other

def site (f : Site → Site) : Act Unit := modify (·.setSite f)

/-- An unsolicited packet; a failure to write it is nobody's concern. -/
def event (packet : Json) : Act Unit := modify (·.write packet)

def release (name : String) : Act Unit := modify (·.release name)

end Act

/-- The members of a reply, apart from the sender and the request's number. -/
abbrev Reply := List (String × Json)

/-- A handler at work. It may fail at any point, and what it did before stays done; kept beside is
whether the reply has been written. -/
abbrev Handling := ExceptT Refusal (StateT Bool Act)

/-- What an actor that checks no more than the method does about a request. -/
abbrev Decision := Except Refusal (Act Reply)

namespace Request

def withId (packet : Fields) (answer : Json) : Json :=
  match packet.get? "requestId" with
  | some id => answer.set "requestId" id
  | none => answer

/-- Writes the reply, which fails where the line is broken. -/
def reply (self : String) (packet : Fields) (members : Reply) : Handling Unit := do
  if (← getThe Scene).conn.line == .broken then throw .internal
  Act.event (withId packet (.object (("from", .str self) :: members)))
  set true

def grant (self : String) (packet : Fields) (decision : Decision) : Handling Unit := do
  let act ← decision
  reply self packet (← act)

end Request

end RemoteInspector
