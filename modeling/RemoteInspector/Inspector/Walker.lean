import RemoteInspector.Dom.Selector
import RemoteInspector.Inspector.NodeForm
import RemoteInspector.Inspector.Paging
import RemoteInspector.Scene
/-!
Walkers: the client's view of a document. Node actors are made on demand, and changes are queued as
records until the client fetches them.
-/
namespace RemoteInspector

def Scene.known? (s : Scene) (walker : String) (node : NodeId) : Option String :=
  (s.walker? walker).bind (·.known.get? node)

namespace Walker

/-- The actor of a node, made if the walker does not know the node yet. A document is watched from
then on. -/
def ref (walker host : String) (node : NodeId) : Act String := do
  let s ← get
  match s.known? walker node with
  | some name => return name
  | none =>
    let observer ←
      if (s.site.dom host).isDocument node then do
        let (site, id) := s.site.observe s.conn.id host node walker
        Act.site fun _ => site
        pure (some id)
      else pure none
    let name ← Act.register "domnode" walker (.node ⟨host, walker, node, observer⟩)
    Act.updateWalker walker fun w => { w with known := w.known.insert node name }
    return name

/-- The form of a node actor, none if there is no such actor. The parent gets an actor on the way. -/
def form? (name : String) : Act (Option NodeForm) := do
  let s ← get
  match s.node? name with
  | none => return none
  | some actor =>
    let dom := s.site.dom actor.host
    let parent ←
      match s.walker? actor.walker, Walk.visibleParent? dom actor.node with
      | some _, some parent => do pure (some (← ref actor.walker actor.host parent))
      | _, _ => pure none
    return some (.ofInfo s.site.prefs.valueSummaryLength name parent (dom.info? actor.node))

def form (name : Option String) : Act Json :=
  match name with
  | none => return .null
  | some name => do return .optional ((← form? name).map NodeForm.toJson)

def forms (names : List String) : Act Json := do
  return .arr ((← names.mapM form?).filterMap (·.map NodeForm.toJson))

/-- Makes actors for the nodes of a list up to the first known one. -/
def refUntilKnown (walker host : String) : List NodeId → Act (List String)
  | [] => return []
  | node :: rest => do
      if ((← get).known? walker node).isSome then return []
      let name ← ref walker host node
      return name :: (← refUntilKnown walker host rest)

/-- Makes actors for the unknown nodes above `node`, nearest first, up to the first known one. -/
def ensurePath (walker host : String) (node : NodeId) : Act (List String) := do
  refUntilKnown walker host (Walk.visibleAncestors ((← get).site.dom host) node)

/-- Releases a node actor and before it those of all nodes below that the walker knows. -/
def releaseBelow (walker host : String) : Nat → String → Act Unit
  | 0, _ => return ()
  | fuel + 1, name => do
      let s ← get
      match s.node? name with
      | none => return ()
      | some actor =>
        (Walk.below (s.site.dom host) .all actor.node).forM fun child => do
          match (← get).known? walker child with
          | some below => releaseBelow walker host fuel below
          | none => return ()
        Act.release name

def releaseNode (walker host name : String) : Act Unit := do
  releaseBelow walker host ((← get).site.dom host).reach name

/-- The queued records. With `cleanup` the orphans are released as well. -/
def takeMutations (walker : String) (w : WalkerActor) (cleanup : Bool) : Act (List Mutation) := do
  Act.updateWalker walker fun w => { w with queue := [] }
  if cleanup then
    Act.updateWalker walker fun w => { w with orphans := [] }
    w.orphans.forM (releaseNode walker w.host)
  return w.queue

/-- Makes a walker over the root document of a host, which the client knows from the start. -/
def register (owner host : String) : Act (String × Json) := do
  let root := ((← get).site.dom host).root
  let walker ← Act.register "domwalker" owner (.walker { host := host, root := root })
  let name ← ref walker host root
  return (walker, .object [("actor", .str walker), ("root", ← form (some name))])

/-! ### Requests -/

def nodeArgument? (s : Scene) (packet : Fields) (key : String) : Except Refusal (Option NodeId) :=
  match packet.get? key with
  | none | some .null => .ok none
  | some (.str name) => do return some (← s.lookupNode name)
  | some _ => .error (.wrongShape key "domnode")

def nodeArgument (s : Scene) (packet : Fields) (key : String) : Except Refusal NodeId := do
  match ← nodeArgument? s packet key with
  | some node => return node
  | none => .error (.missingParameter key)

def textArgument (packet : Fields) (key : String) : Except Refusal String :=
  match (packet.get? key).bind Json.string? with
  | some text => .ok text
  | none => .error (.missingParameter key)

def filterArgument (packet : Fields) : Filter :=
  ((packet.get? "whatToShow").bind Json.natural?).elim .all Filter.ofBits

/-- No limit, or a limit of zero, means all nodes. -/
def pageOptions (s : Scene) (packet : Fields) : Except Refusal PageOptions := do
  let limit :=
    match (packet.get? "maxNodes").bind Json.natural? with
    | none | some 0 => NodePage.unlimited
    | some n => n
  let center ← nodeArgument? s packet "center"
  let start ← nodeArgument? s packet "start"
  return ⟨limit, center, start, filterArgument packet⟩

/-- The document asked for: that of a node, or the walker's own. -/
def documentArgument (s : Scene) (w : WalkerActor) (packet : Fields) :
    Except Refusal (Option NodeId) := do
  match ← nodeArgument? s packet "node" with
  | some node => return (s.site.dom w.host).documentOf? node
  | none => return some w.root

def select (d : Dom) (base : NodeId) (text : String) : Except Refusal (List NodeId) :=
  match Selector.parse? text with
  | some selector => .ok (selector.select d base)
  | none => .error (.invalidSelector text)

def nodeReply (self host : String) (node : Option NodeId) : Act Reply := do
  let name ← node.mapM (ref self host)
  return [("node", ← form name)]

def pageReply (self host : String) (page : NodePage) : Act Reply := do
  let names ← page.nodes.mapM (ref self host)
  return [("hasFirst", .bool page.hasFirst), ("hasLast", .bool page.hasLast), ("nodes", ← forms names)]

/-- The nodes above `node`; within one document those of the same owner. -/
def parentsOf (d : Dom) (node : NodeId) (sameDocument : Bool) : List NodeId :=
  let ancestors := Walk.visibleAncestors d node
  if sameDocument then ancestors.takeWhile fun p => d.ownerDocument? p == d.ownerDocument? node
  else ancestors

def queryReply (self host : String) : Option NodeId → Act Reply
  | none => return []
  | some found => do
      let name ← ref self host found
      let path ← ensurePath self host found
      let node ← form (some name)
      return [("node", node), ("newNodes", ← forms path)]

def handler (self : String) (w : WalkerActor) (method : String) (packet : Fields) : Handling Unit := do
  let s ← getThe Scene
  let d := s.site.dom w.host
  match method with
  | "document" =>
    let document ← documentArgument s w packet
    Request.reply self packet (← nodeReply self w.host document)
  | "documentElement" =>
    let document ← documentArgument s w packet
    Request.reply self packet (← nodeReply self w.host (document.bind d.documentElement?))
  | "parents" =>
    let node ← nodeArgument s packet "node"
    let sameDocument := ((packet.get? "sameDocument").bind Json.bool?).getD false
    let names ← ((parentsOf d node sameDocument).mapM (ref self w.host) : Act _)
    Request.reply self packet [("nodes", ← forms names)]
  | "children" =>
    let node ← nodeArgument s packet "node"
    let page ← NodePage.children d node (← pageOptions s packet)
    Request.reply self packet (← pageReply self w.host page)
  | "siblings" =>
    let node ← nodeArgument s packet "node"
    let page ← NodePage.siblings d node (← pageOptions s packet)
    Request.reply self packet (← pageReply self w.host page)
  | "nextSibling" =>
    let node ← nodeArgument s packet "node"
    let next := (Walk.start d (filterArgument packet) node).nextSibling? d
    Request.reply self packet (← nodeReply self w.host (next.map (·.current)))
  | "previousSibling" =>
    let node ← nodeArgument s packet "node"
    let previous := (Walk.start d (filterArgument packet) node).previousSibling? d
    Request.reply self packet (← nodeReply self w.host (previous.map (·.current)))
  | "querySelector" =>
    let base ← nodeArgument s packet "node"
    let found ← select d base (← textArgument packet "selector")
    Request.reply self packet (← queryReply self w.host found.head?)
  | "querySelectorAll" =>
    let base ← nodeArgument s packet "node"
    let found ← select d base (← textArgument packet "selector")
    let list ← Act.register "domnodelist" self (.nodeList ⟨self, found⟩)
    Request.reply self packet
      [("list", .object [("actor", .str list), ("length", .nat found.length)])]
  | "releaseNode" =>
    let name ← textArgument packet "node"
    let _ ← s.lookupNode name
    releaseNode self w.host name
    Request.reply self packet []
  | "getMutations" =>
    let cleanup := ((packet.get? "cleanup").bind Json.bool?).getD false
    let records ← takeMutations self w cleanup
    Request.reply self packet [("mutations", .arr (records.map Mutation.toJson))]
  | "release" => Request.reply self packet []
  | _ => throw .unrecognizedPacketType

/-! ### Changes of the document -/

def queue (walker : String) (w : WalkerActor) (records : List Mutation) : Act Unit := do
  if records.isEmpty then return ()
  Act.updateWalker walker fun w => { w with queue := w.queue ++ records }
  if w.queue.isEmpty then
    Act.event (.object [("from", .str walker), ("type", .str "newMutations")])

/-- The record of one change, and the walker after it; none if the walker does not know the target. -/
def record (d : Dom) (limit : Nat) (w : WalkerActor) (change : Dom.Change) :
    WalkerActor × Option Mutation :=
  match w.known.get? change.target with
  | none => (w, none)
  | some target =>
    match change with
    | .attributes node name space =>
      (w, some (.attributes target name space (d.attribute? node name)))
    | .characterData node =>
      let (value, cut) := summarize limit (((d.info? node).bind (·.value)).getD "")
      (w, some (.characterData target value cut))
    | .childList node added removed =>
      let removed := removed.filterMap w.known.get?
      let added := added.filterMap w.known.get?
      let w := added.foldl WalkerActor.adopt (removed.foldl WalkerActor.orphan w)
      (w, some (.childList target added removed ((d.info? node).elim 0 (·.numChildren))))

def records (d : Dom) (limit : Nat) (w : WalkerActor) :
    List Dom.Change → WalkerActor × List Mutation
  | [] => (w, [])
  | change :: rest =>
    let (w, first) := record d limit w change
    let (w, others) := records d limit w rest
    (w, first.toList ++ others)

def onChanges (walker : String) (changes : List Dom.Change) : Act Unit := do
  let s ← get
  match s.walker? walker with
  | none => return ()
  | some w =>
    let (w, found) := records (s.site.dom w.host) s.site.prefs.valueSummaryLength w changes
    Act.updateWalker walker fun _ => w
    queue walker w found

def onFrameLoad (walker : String) (frame : NodeId) : Act Unit := do
  match (← get).walker? walker with
  | none => return ()
  | some w =>
    match w.known.get? frame with
    | none => return ()
    | some target => queue walker w [.frameLoad target [] []]

/-- A document goes away: the client is told, and everything below it is released. -/
def onDocumentUnload (walker : String) (document : NodeId) : Act Unit := do
  match (← get).walker? walker with
  | none => return ()
  | some w =>
    match w.known.get? document with
    | none => return ()
    | some target =>
      queue walker w [.documentUnload target]
      releaseNode walker w.host target

end Walker

end RemoteInspector
