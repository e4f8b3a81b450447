import RemoteInspector.Client.Front
import RemoteInspector.Client.KnownTree
/-!
Walkers on the side of the client. Every node form in a reply is read before the caller sees it.
-/
namespace RemoteInspector

structure WalkerFront where
  front : Front
  channel : ChannelId
  tree : KnownTree := {}
  /-- Whether orphans are released whenever records are fetched after an announcement. -/
  autoCleanup : Bool := true

structure NodeListFront where
  front : Front
  length : Nat

structure PageRequest where
  maxNodes : Option Nat := none
  center : Option String := none
  start : Option String := none
  whatToShow : Option Nat := none
  deriving DecidableEq, Repr

structure PageReply where
  hasFirst : Bool
  hasLast : Bool
  nodes : List String
  deriving DecidableEq, Repr

structure Walking (σ : Type) where
  walker : WalkerFront
  link : Link σ

abbrev WalkerCall (σ : Type) := ExceptT ClientError (StateM (Walking σ))

namespace PageRequest

def arguments (p : PageRequest) (node : String) : Fields :=
  Front.arguments [("node", some (.str node)), ("maxNodes", p.maxNodes.map .nat),
    ("center", p.center.map .str), ("start", p.start.map .str), ("whatToShow", p.whatToShow.map .nat)]

end PageRequest

namespace NodeListFront

def ofForm (form : Json) : Except ClientError NodeListFront := do
  return ⟨← Front.ofForm form "domnodelist", (form.getNatural? "length").getD 0⟩

end NodeListFront

namespace WalkerFront

def ofForm {σ : Type} [Peer σ] (form : Json) : Calling σ WalkerFront := do
  let front ← Front.ofForm form "domwalker"
  let channel ← Calling.take (·.subscribe front.actor)
  match (form.get? "root").filter Json.isObject with
  | none => return { front := front, channel := channel }
  | some root =>
    match KnownTree.read {} root with
    | .ok (tree, name) =>
      return { front := front, channel := channel, tree := { tree with root := some name } }
    | .error e =>
      Calling.client (·.dropChannel channel)
      throw e

end WalkerFront

namespace WalkerCall

variable {σ : Type} [Peer σ]

def onLink {α : Type} (act : Calling σ α) : WalkerCall σ α :=
  ExceptT.mk (modifyGet fun w =>
    let (result, link) := (act.run.run w.link : Id _)
    (result, { w with link := link }))

def onTree (f : KnownTree → KnownTree) : WalkerCall σ Unit :=
  modify fun w => { w with walker := { w.walker with tree := f w.walker.tree } }

def readForms (forms : List (String × Json)) : WalkerCall σ Unit :=
  forms.forM fun (typeName, form) => do
    if typeName = "domnode" then
      match (← get).walker.tree.read form with
      | .ok (m, _) => onTree fun _ => m
      | .error e => throw e

/-- Calls a method of some front, and reads the node forms of the reply. -/
def callOn (front : Front) (method : String) (arguments : Fields) : WalkerCall σ Fields := do
  let reply ← onLink (front.call method arguments)
  readForms (front.replyForms method reply)
  return reply

def call (method : String) (arguments : Fields) : WalkerCall σ Fields := do
  callOn (← get).walker.front method arguments

def actorIn (reply : Fields) (key : String) : Option String :=
  (Fields.get? reply key).bind (·.getString? "actor")

def actorsIn (reply : Fields) (key : String) : List String :=
  ((Json.obj reply).getItems key).filterMap (·.getString? "actor")

def page (reply : Fields) : PageReply where
  hasFirst := ((Json.obj reply).getBool? "hasFirst").getD false
  hasLast := ((Json.obj reply).getBool? "hasLast").getD false
  nodes := actorsIn reply "nodes"

def nodeCall (method : String) (pairs : List (String × Option Json)) : WalkerCall σ (Option String) := do
  return actorIn (← call method (Front.arguments pairs)) "node"

def document (node : Option String) : WalkerCall σ (Option String) :=
  nodeCall "document" [("node", node.map .str)]

def documentElement (node : Option String) : WalkerCall σ (Option String) :=
  nodeCall "documentElement" [("node", node.map .str)]

def parents (node : String) (sameDocument : Bool) : WalkerCall σ (List String) := do
  return actorsIn (← call "parents"
    (Front.arguments [("node", some (.str node)), ("sameDocument", some (.bool sameDocument))])) "nodes"

def children (node : String) (p : PageRequest) : WalkerCall σ PageReply := do
  return page (← call "children" (p.arguments node))

def siblings (node : String) (p : PageRequest) : WalkerCall σ PageReply := do
  return page (← call "siblings" (p.arguments node))

def nextSibling (node : String) (whatToShow : Option Nat) : WalkerCall σ (Option String) :=
  nodeCall "nextSibling" [("node", some (.str node)), ("whatToShow", whatToShow.map .nat)]

def previousSibling (node : String) (whatToShow : Option Nat) : WalkerCall σ (Option String) :=
  nodeCall "previousSibling" [("node", some (.str node)), ("whatToShow", whatToShow.map .nat)]

def querySelector (node selector : String) : WalkerCall σ (Option String) :=
  nodeCall "querySelector" [("node", some (.str node)), ("selector", some (.str selector))]

def querySelectorAll (node selector : String) : WalkerCall σ NodeListFront := do
  let reply ← call "querySelectorAll"
    (Front.arguments [("node", some (.str node)), ("selector", some (.str selector))])
  match Fields.get? reply "list" with
  | none => throw (.malformed .noNodeList)
  | some list => NodeListFront.ofForm list

def item (l : NodeListFront) (index : Nat) : WalkerCall σ (Option String) := do
  return actorIn (← callOn l.front "item" (Front.arguments [("item", some (.nat index))])) "node"

def items (l : NodeListFront) (first last : Option Nat) : WalkerCall σ (List String) := do
  return actorsIn (← callOn l.front "items"
    (Front.arguments [("start", first.map .nat), ("end", last.map .nat)])) "nodes"

def releaseNode (node : String) : WalkerCall σ Unit := do
  let _ ← call "releaseNode" (Front.arguments [("node", some (.str node))])
  onTree (·.destroy node)

def getMutations (cleanup : Bool) : WalkerCall σ (List Mutation) := do
  let reply ← call "getMutations" (Front.arguments [("cleanup", some (.bool cleanup))])
  let records := (Fields.get? reply "mutations").getD (.arr [])
  match Json.listOf? Mutation.ofJson? records with
  | none => throw (.malformed .badMutation)
  | some records =>
    let (m, applied) := (← get).walker.tree.applyRecords records
    onTree fun _ => if cleanup then m.cleanUp else m
    return applied

/-- Fetches records if any have been announced since the last time. -/
def processEvents : WalkerCall σ (List Mutation) := do
  let w := (← get).walker
  let packets ← onLink (Calling.take fun c => (c.setPackets w.channel [], (c.channel w.channel).packets))
  if packets.any (Client.hasType "newMutations") then getMutations w.autoCleanup else return []

/-- Fetches records if an announcement is there; further ones stay. -/
def waitForMutations : WalkerCall σ (List Mutation) := do
  let w := (← get).walker
  match ← onLink (Calling.take fun c => c.waitOn w.channel "newMutations") with
  | some _ => getMutations w.autoCleanup
  | none => return []

/-- The full value of a node: from its form, or fetched if the form has it cut. -/
def getNodeValue (node : String) : WalkerCall σ String := do
  match (← get).walker.tree.node? node with
  | none => throw (.malformed (.unknownNode node))
  | some n =>
    if !n.form.incomplete then return n.form.shortValue.getD ""
    let front ← Front.ofType node "domnode"
    let reply ← onLink (front.call "getNodeValue" [])
    onLink (fullText ((Fields.get? reply "value").getD .null))

def setNodeValue (node value : String) : WalkerCall σ Unit := do
  let front ← Front.ofType node "domnode"
  let _ ← onLink (front.call "setNodeValue" (Front.arguments [("value", some (.str value))]))
  return ()

end WalkerCall

namespace WalkerFront

variable {σ : Type} [Peer σ]

/-- Releases the walker and all its nodes; the walker is of no use afterwards. -/
def release (w : WalkerFront) : Calling σ Unit := do
  Calling.client (·.unsubscribe w.front.actor)
  Calling.client (·.dropChannel w.channel)
  let _ ← w.front.call "release" []
  return ()

def ofInspector (inspector : String) : Calling σ WalkerFront := do
  let front ← Front.ofType inspector "inspector"
  let reply ← front.call "getWalker" []
  match Fields.get? reply "walker" with
  | none => throw (.malformed .noWalker)
  | some form => ofForm form

end WalkerFront

namespace NodeListFront

variable {σ : Type} [Peer σ]

def release (l : NodeListFront) : Calling σ Unit := do
  let _ ← l.front.call "release" []
  return ()

end NodeListFront

end RemoteInspector
