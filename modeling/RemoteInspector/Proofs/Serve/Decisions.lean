import RemoteInspector.Proofs.Act
import RemoteInspector.Serve.Request
/-!
Handlers check a request before they do anything about it. What they do can therefore be told in two
parts: a decision, which looks at the scene, and the act that follows one in favour.
-/
namespace RemoteInspector

namespace Walker

def decide (s : Scene) (self : String) (w : WalkerActor) (method : String) (packet : Fields) :
    Decision :=
  let d := s.site.dom w.host
  match method with
  | "document" => do
      let document ← documentArgument s w packet
      return nodeReply self w.host document
  | "documentElement" => do
      let document ← documentArgument s w packet
      return nodeReply self w.host (document.bind d.documentElement?)
  | "parents" => do
      let node ← nodeArgument s packet "node"
      let sameDocument := ((packet.get? "sameDocument").bind Json.bool?).getD false
      return do
        let names ← (parentsOf d node sameDocument).mapM (ref self w.host)
        return [("nodes", ← forms names)]
  | "children" => do
      let node ← nodeArgument s packet "node"
      let page ← NodePage.children d node (← pageOptions s packet)
      return pageReply self w.host page
  | "siblings" => do
      let node ← nodeArgument s packet "node"
      let page ← NodePage.siblings d node (← pageOptions s packet)
      return pageReply self w.host page
  | "nextSibling" => do
      let node ← nodeArgument s packet "node"
      let next := (Walk.start d (filterArgument packet) node).nextSibling? d
      return nodeReply self w.host (next.map (·.current))
  | "previousSibling" => do
      let node ← nodeArgument s packet "node"
      let previous := (Walk.start d (filterArgument packet) node).previousSibling? d
      return nodeReply self w.host (previous.map (·.current))
  | "querySelector" => do
      let base ← nodeArgument s packet "node"
      let found ← select d base (← textArgument packet "selector")
      return queryReply self w.host found.head?
  | "querySelectorAll" => do
      let base ← nodeArgument s packet "node"
      let found ← select d base (← textArgument packet "selector")
      return do
        let list ← Act.register "domnodelist" self (.nodeList ⟨self, found⟩)
        return [("list", .object [("actor", .str list), ("length", .nat found.length)])]
  | "releaseNode" => do
      let name ← textArgument packet "node"
      let _ ← s.lookupNode name
      return do
        releaseNode self w.host name
        return []
  | "getMutations" =>
    let cleanup := ((packet.get? "cleanup").bind Json.bool?).getD false
    .ok do
      let records ← takeMutations self w cleanup
      return [("mutations", .arr (records.map Mutation.toJson))]
  | "release" => .ok (pure [])
  | _ => .error .unrecognizedPacketType

end Walker

namespace Node

def decide (s : Scene) (self : String) (actor : NodeActor) (method : String) (packet : Fields) :
    Decision :=
  match method with
  | "getNodeValue" =>
    let value := (((s.site.dom actor.host).info? actor.node).bind (·.value)).getD ""
    .ok do return [("value", ← LongString.grip self value)]
  | "setNodeValue" => do
      let value ← Walker.textArgument packet "value"
      return do
        Act.site (·.setNodeValue s.conn.id actor.host actor.node value)
        return []
  | _ => .error .unrecognizedPacketType

end Node

namespace NodeList

def decide (s : Scene) (l : NodeListActor) (method : String) (packet : Fields) : Decision :=
  match s.walker? l.walker with
  | none => .error (.noSuchActor l.walker)
  | some w =>
    match method with
    | "item" =>
      let index := ((packet.get? "item").bind Json.natural?).getD (UInt64.size - 1)
      match l.nodes[index]? with
      | none => .error (.indexOutOfRange index l.nodes.length)
      | some node => .ok do
          let (path, name) ← fetch l.walker w.host node
          let form ← Walker.form (some name)
          return [("node", form), ("newNodes", ← Walker.forms path)]
    | "items" => .ok do
        let found ← (run l packet).mapM (fetch l.walker w.host)
        let nodes ← Walker.forms (found.map Prod.snd)
        return [("nodes", nodes), ("newNodes", ← Walker.forms (found.flatMap Prod.fst))]
    | "release" => .ok (pure [])
    | _ => .error .unrecognizedPacketType

end NodeList

namespace Console

def decide (s : Scene) (self : String) (c : ConsoleActor) (method : String) (packet : Fields) :
    Decision :=
  match method with
  | "startListeners" =>
    let started := (strings packet "listeners").filterMap Listener.ofText?
    .ok do
      Act.updateConsole self fun c => started.foldl startListening c
      return [("nativeConsoleApi", .bool true), ("startedListeners", names started)]
  | "stopListeners" =>
    let stopped := toStop packet
    .ok do
      Act.updateConsole self fun c => stopListening c stopped
      return [("stoppedListeners", names (stopped.filter c.listens))]
  | "getCachedMessages" =>
    let kept := ((s.site.page? c.page).map Page.inOrder).getD []
    .ok do
      let messages ← kept.mapM (cachedForm? self c (strings packet "messageTypes"))
      return [("messages", .arr (messages.filterMap id))]
  | "evaluateJS" => do
      match (packet.get? "text").bind Json.string? with
      | none => .error (.missingParameter "text")
      | some text =>
        return Evaluation.reply self c text ((packet.get? "bindObjectActor").bind Json.string?)
          ((packet.get? "frameActor").bind Json.string?)
  | "autocomplete" =>
    let text := ((packet.get? "text").bind Json.string?).getD ""
    let input := ((packet.get? "cursor").bind Json.natural?).elim text fun n => Text.take n text
    .ok do
      let _ ← Evaluation.debugger self c
      let found := ((s.site.engine c.host).completions.get? input).getD ⟨[], ""⟩
      return [("matches", .strings found.found), ("matchProp", .str found.property)]
  | "clearMessagesCache" => .ok do
      Act.site (·.setPage c.page fun p => { p with cache := [] })
      return []
  | "setPreferences" =>
    match (packet.get? "preferences").bind Json.fields? with
    | none => .error .preferencesNotObject
    | some preferences => .ok do
        Act.updateConsole self fun c =>
          { c with settings := preferences.foldl (fun all m => all.insert m.1 m.2) c.settings }
        return [("updated", .strings (preferences.map Prod.fst))]
  | _ => .error .unrecognizedPacketType

end Console

namespace ScriptObject

def decide (s : Scene) (actor : ObjectActor) (method : String) (packet : Fields) : Decision :=
  let g := Grip.gripper s.site actor.owner
  let o := s.site.object actor.object
  match method with
  | "prototypeAndProperties" => .ok do
      let own ← Grip.ownProperties g o
      let getters ← Grip.safeGetterValues g actor.object own
      let proto ← Grip.prototype g actor.object
      return [("prototype", proto), ("ownProperties", .obj own), ("safeGetterValues", .obj getters)]
  | "prototype" => .ok do return [("prototype", ← Grip.prototype g actor.object)]
  | "property" =>
    match (packet.get? "name").bind Json.string? with
    | none => .error (.missingParameter "name")
    | some name => .ok do return [("descriptor", .optional (← Grip.property g o name))]
  | "ownPropertyNames" =>
    .ok (pure [("ownPropertyNames", .strings (o.ownPropertyNames.toOption.getD []))])
  | "release" => .ok (pure [])
  | _ => .error .unrecognizedPacketType

end ScriptObject

namespace Tracer

def decide (s : Scene) (self host : String) (method : String) (packet : Fields) : Decision :=
  let t := s.tracing self
  let given := (packet.get? "name").bind Json.string?
  match method with
  | "attach" =>
    if t.debugger.isSome then .error .alreadyAttached
    else .ok do
      attach self host
      return [("type", .str "attached"), ("traceTypes", .strings (TraceType.all.map TraceType.text))]
  | "detach" => .ok do
      modify (·.detach self)
      return [("type", .str "detached")]
  | "startTrace" => do
      let types ← types packet
      match t.debugger with
      | none => .error .notAttached
      | some id =>
        return do
          start self t id given types
          return traceReply "startedTrace" (t.nameFor given)
  | "stopTrace" =>
    match t.debugger, t.active.isEmpty with
    | some id, false =>
      match t.chosen? given with
      | none => .error (given.elim .internal .noSuchTrace)
      | some name => .ok do
          stop self t id name
          return traceReply "stoppedTrace" name
    | _, _ => .error .noActiveTraces
  | _ => .error .unrecognizedPacketType

end Tracer

/-- A handler does what has been decided: it fails with the scene as it was, or acts and then replies. -/
def Handling.Obeys (self : String) (packet : Fields) (s : Scene) (h : Handling Unit) (d : Decision) : Prop :=
  ((h.run.run false).run s : Id _) = match d with
    | .error r => ((.error r, false), s)
    | .ok act => (((Request.reply self packet (act.result s)).run.run false).run (act.after s) : Id _)

namespace Handling.Obeys

variable {self : String} {packet : Fields} {s : Scene}

theorem refuse (r : Refusal) : Obeys self packet s (throw r) (.error r) := rfl

/-- Nothing happens while something is checked. -/
theorem check {α : Type} (x : Except Refusal α) {h : α → Handling Unit} {d : α → Decision}
    (next : ∀ a, Obeys self packet s (h a) (d a)) : Obeys self packet s (liftM x >>= h) (x >>= d) := by
  cases x with
  | error r => rfl
  | ok a => exact next a

theorem look {h : Scene → Handling Unit} {d : Decision} (next : Obeys self packet s (h s) d) :
    Obeys self packet s (getThe Scene >>= h) d := next

theorem step {α : Type} (a : Act α) {h : α → Handling Unit} {next : α → Act Reply}
    (rest : ∀ x t, Obeys self packet t (h x) (.ok (next x))) : Obeys self packet s (liftM a >>= h) (.ok (a >>= next)) :=
  rest (a.result s) (a.after s)

theorem reply (members : Reply) : Obeys self packet s (Request.reply self packet members) (.ok (pure members)) := rfl

theorem grant (d : Decision) : Obeys self packet s (Request.grant self packet d) d := by
  cases d <;> rfl

end Handling.Obeys

namespace Request

/-- What an actor does about a request whose parameters have been checked. -/
def decide (s : Scene) (self : String) (method : String) (packet : Fields) : Actor → Decision
  | .root actor => Tabs.decideRoot s actor method
  | .tab actor => Tabs.decideTab actor method
  | .inspector actor => Inspector.decide self actor method
  | .walker actor => Walker.decide s self actor method packet
  | .node actor => Node.decide s self actor method packet
  | .nodeList actor => NodeList.decide s actor method packet
  | .longString text => LongString.decide text method packet
  | .console actor => Console.decide s self actor method packet
  | .object actor => ScriptObject.decide s actor method packet
  | .network actor => Network.decide self actor method
  | .thread actor => Thread.decide s self actor method packet
  | .frame _ => .error .unrecognizedPacketType
  | .trace host => Tracer.decide s self host method packet

end Request

/-! ### Handlers obey -/

open Handling

variable {self : String} {packet : Fields} {s : Scene} {method : String}

theorem Walker.obeys (w : WalkerActor) :
    Obeys self packet s (Walker.handler self w method packet) (Walker.decide s self w method packet) := by
  unfold Walker.handler Walker.decide
  refine .look ?_
  dsimp only
  split
  case h_4 | h_5 | h_8 | h_9 => exact .check _ fun _ => .check _ fun _ => .check _ fun _ => rfl
  case h_10 => exact .check _ fun _ => .check _ fun _ => rfl
  case h_11 | h_12 => rfl
  case h_13 => first | rfl | split <;> first | contradiction | rfl
  all_goals exact .check _ fun _ => rfl

theorem Node.obeys (n : NodeActor) :
    Obeys self packet s (Node.handler self n method packet) (Node.decide s self n method packet) := by
  unfold Node.handler Node.decide
  refine .look ?_
  split
  · rfl
  · exact .check _ fun _ => rfl
  · first | rfl | split <;> first | contradiction | rfl

theorem NodeList.obeys (l : NodeListActor) :
    Obeys self packet s (NodeList.handler self l method packet) (NodeList.decide s l method packet) := by
  unfold NodeList.handler NodeList.decide
  refine .look ?_
  cases s.walker? l.walker with
  | none => rfl
  | some w =>
    dsimp only
    split
    · cases l.nodes[((packet.get? "item").bind Json.natural?).getD (UInt64.size - 1)]? with
      | none => exact .refuse _
      | some node =>
        refine .step _ fun found _ => ?_
        cases found
        exact .step _ fun _ _ => .step _ fun _ _ => .reply _
    · exact .step _ fun _ _ => .step _ fun _ _ => .step _ fun _ _ => .reply _
    · exact .reply _
    · first | exact .refuse _ | split <;> first | contradiction | exact .refuse _

theorem Console.obeys (c : ConsoleActor) :
    Obeys self packet s (Console.handler self c method packet) (Console.decide s self c method packet) := by
  unfold Console.handler Console.decide
  refine .look ?_
  split
  case h_4 => cases (packet.get? "text").bind Json.string? <;> rfl
  case h_7 => cases (packet.get? "preferences").bind Json.fields? <;> rfl
  case h_8 => first | rfl | split <;> first | contradiction | rfl
  all_goals rfl

theorem ScriptObject.obeys (o : ObjectActor) :
    Obeys self packet s (ScriptObject.handler self o method packet) (ScriptObject.decide s o method packet) := by
  unfold ScriptObject.handler ScriptObject.decide
  refine .look ?_
  split
  · exact .step _ fun _ _ => .step _ fun _ _ => .step _ fun _ _ => .reply _
  · exact .step _ fun _ _ => .reply _
  · cases (packet.get? "name").bind Json.string? with
    | none => exact .refuse _
    | some name => exact .step _ fun _ _ => .reply _
  · exact .reply _
  · exact .reply _
  · first | exact .refuse _ | split <;> first | contradiction | exact .refuse _

theorem Tracer.obeys (host : String) :
    Obeys self packet s (Tracer.handler self host method packet) (Tracer.decide s self host method packet) := by
  unfold Tracer.handler Tracer.decide
  refine .look ?_
  dsimp only
  split
  · cases (s.tracing self).debugger <;> rfl
  · rfl
  · refine .check _ fun types => ?_
    cases (s.tracing self).debugger <;> rfl
  · cases (s.tracing self).debugger with
    | none => rfl
    | some id =>
      cases (s.tracing self).active.isEmpty with
      | true => rfl
      | false => cases (s.tracing self).chosen? ((packet.get? "name").bind Json.string?) <;> rfl
  · first | rfl | split <;> first | contradiction | rfl

/-- No handler fails once it has changed something. -/
theorem Request.obeys (actor : Actor) :
    Obeys self packet s (Request.handler self packet method actor) (Request.decide s self method packet actor) := by
  cases actor with
  | walker w => exact Walker.obeys w
  | node n => exact Node.obeys n
  | nodeList l => exact NodeList.obeys l
  | console c => exact Console.obeys c
  | object o => exact ScriptObject.obeys o
  | trace host => exact Tracer.obeys host
  | frame => rfl
  | root | thread => exact .look (.grant _)
  | _ => exact .grant _

theorem Request.run_reply (members : Reply) : (((reply self packet members).run.run false).run s : Id _) =
    match s.conn.line with
    | .up => ((.ok (), true), s.write (withId packet (.object (("from", .str self) :: members))))
    | .broken => ((.error .internal, false), s) := by
  change (((if s.conn.line == .broken then throw .internal else _ : Handling Unit).run.run false).run s : Id _) = _
  cases s.conn.line <;> rfl

/-- What a request comes to: the line is only looked at for release, since nothing is written where it is broken. -/
theorem Request.perform_eq (s : Scene) (packet : Fields) (self : String) (method : Method) (actor : Actor) :
    perform s packet self method actor = match decide s self method.name packet actor with
      | .error r => s.write (withId packet (r.packet self))
      | .ok act =>
        let s := (act.after s).write (withId packet (.object (("from", .str self) :: act.result s)))
        if method.release && s.conn.line == .up then s.release self else s := by
  unfold perform
  rw [obeys actor]
  cases decide s self method.name packet actor with
  | error r => rfl
  | ok act =>
    dsimp only
    rw [run_reply]
    cases line : (act.after s).conn.line <;> simp [Scene.write, Scene.setConn, line]

end RemoteInspector
