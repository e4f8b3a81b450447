import RemoteInspector.Inspector.Mutation
import RemoteInspector.Protocol.Catalogue
import RemoteInspector.Site
/-!
The actors of a connection: each stands for something on the server and keeps what it needs to answer
for it. Actors refer to each other by name.
-/
namespace RemoteInspector

inductive Listener
  | pageError
  | consoleApi
  | networkActivity
  | fileActivity
  deriving DecidableEq, Repr

namespace Listener

def all : List Listener := [pageError, consoleApi, networkActivity, fileActivity]

def text : Listener → String
  | pageError => "PageError"
  | consoleApi => "ConsoleAPI"
  | networkActivity => "NetworkActivity"
  | fileActivity => "FileActivity"

def ofText? (text : String) : Option Listener := all.find? (·.text = text)

end Listener

/-- Lists the tabs, by increasing number. -/
structure RootActor where
  tabs : Table TabId String := []
  deriving DecidableEq, Repr

structure TabActor where
  page : PageId
  inspector : String
  tracer : String
  console : String
  thread : String
  deriving DecidableEq, Repr

structure InspectorActor where
  host : String
  walkers : List String := []
  deriving DecidableEq, Repr

/-- The client's view of a document: the nodes it has been told of, those of them that were taken out
of the tree, and the records it has not fetched yet. -/
structure WalkerActor where
  host : String
  root : NodeId
  known : Table NodeId String := []
  orphans : List String := []
  queue : List Mutation := []
  deriving DecidableEq, Repr

structure NodeActor where
  host : String
  walker : String
  node : NodeId
  /-- Documents are watched as long as the client knows them. -/
  observer : Option ObserverId := none
  deriving DecidableEq, Repr

structure NodeListActor where
  walker : String
  nodes : List NodeId
  deriving DecidableEq, Repr

structure ConsoleActor where
  page : PageId
  host : String
  /-- Made for the first evaluation. -/
  debugger : Option DebuggerId := none
  listeners : List Listener := []
  settings : Fields := []
  /-- The network actor of each request of the host. -/
  requests : Table String String := []
  lastResult : Value := .undefined
  deriving Repr

/-- Looks into an object; what it finds there belongs to the owner. -/
structure ObjectActor where
  owner : String
  object : ObjectRef
  deriving DecidableEq, Repr

/-- One request and what has been reported of it so far. -/
structure NetworkActor where
  console : String
  request : HttpRequest
  saveBodies : Bool
  requestHeaders : List HttpHeader := []
  requestCookies : List HttpHeader := []
  postData : Option (List UInt8) := none
  responseStart : Option HttpResponseStart := none
  responseHeaders : List HttpHeader := []
  responseCookies : List HttpHeader := []
  responseContent : Option HttpResponseContent := none
  timings : Option EventTimings := none
  deriving DecidableEq, Repr

structure ThreadActor where
  host : String
  /-- The frames handed out last. -/
  frames : List String := []
  deriving DecidableEq, Repr

structure FrameActor where
  depth : Nat
  frame : PausedFrame
  deriving DecidableEq, Repr

inductive Actor
  | root (actor : RootActor)
  | tab (actor : TabActor)
  | inspector (actor : InspectorActor)
  | walker (actor : WalkerActor)
  | node (actor : NodeActor)
  | nodeList (actor : NodeListActor)
  | longString (text : String)
  | console (actor : ConsoleActor)
  | object (actor : ObjectActor)
  | network (actor : NetworkActor)
  | thread (actor : ThreadActor)
  | frame (actor : FrameActor)
  | trace (host : String)
  deriving Repr

namespace Actor

def schema : Actor → Schema
  | root _ => Schema.root
  | tab _ => Schema.tab
  | inspector _ => Schema.inspector
  | walker _ => Schema.walker
  | node _ => Schema.node
  | nodeList _ => Schema.nodeList
  | longString _ => Schema.longString
  | console _ => Schema.console
  | object _ => Schema.object
  | network _ => Schema.networkEvent
  | thread _ => Schema.thread
  | frame _ => Schema.frame
  | trace _ => Schema.trace

def tab? : Actor → Option TabActor
  | tab actor => some actor
  | _ => none

def inspector? : Actor → Option InspectorActor
  | inspector actor => some actor
  | _ => none

def walker? : Actor → Option WalkerActor
  | walker actor => some actor
  | _ => none

def node? : Actor → Option NodeActor
  | node actor => some actor
  | _ => none

def console? : Actor → Option ConsoleActor
  | console actor => some actor
  | _ => none

def object? : Actor → Option ObjectActor
  | object actor => some actor
  | _ => none

def network? : Actor → Option NetworkActor
  | network actor => some actor
  | _ => none

def frame? : Actor → Option FrameActor
  | frame actor => some actor
  | _ => none

end Actor

namespace WalkerActor

/-- A node actor is gone: its node is no longer known by it. -/
def forget (w : WalkerActor) (node : NodeId) (name : String) : WalkerActor :=
  { w with
    known := if w.known.get? node = some name then w.known.erase node else w.known
    orphans := w.orphans.filter (· ≠ name) }

def orphan (w : WalkerActor) (name : String) : WalkerActor :=
  { w with orphans := if name ∈ w.orphans then w.orphans else w.orphans ++ [name] }

def adopt (w : WalkerActor) (name : String) : WalkerActor :=
  { w with orphans := w.orphans.filter (· ≠ name) }

end WalkerActor

namespace ConsoleActor

def listens (c : ConsoleActor) (l : Listener) : Bool := c.listeners.contains l

def saveBodiesKey : String := "NetworkMonitor.saveRequestAndResponseBodies"

def saveBodies (c : ConsoleActor) : Bool := ((c.settings.get? saveBodiesKey).bind Json.bool?).getD false

def forgetActor (c : ConsoleActor) (name : String) : ConsoleActor :=
  { c with requests := c.requests.filter (·.2 ≠ name) }

end ConsoleActor

end RemoteInspector
