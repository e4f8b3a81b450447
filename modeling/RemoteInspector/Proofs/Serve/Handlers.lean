import RemoteInspector.Proofs.Act
import RemoteInspector.Proofs.Grip.Laws
import RemoteInspector.Proofs.Registry.Valid
import RemoteInspector.Proofs.Serve.Refusals
/-!
The handlers of all actors, gone through once: whatever law the primitive steps of a handler obey, it obeys too.
-/
namespace RemoteInspector

/-- Keys of a reply are never those that say who sent it, which request it answers or that it is an
error. -/
def Reply.Key (key : String) : Prop := key ≠ "from" ∧ key ≠ "requestId" ∧ key ≠ "error"

/-- An act that obeys a law and gives a reply with proper keys. -/
structure Answering (C : ∀ {γ : Type}, Act γ → Prop) (act : Act Reply) : Prop where
  law : C act
  keys : ∀ s, ∀ member ∈ act.result s, Reply.Key member.1

namespace Answering

variable {C : ∀ {γ : Type}, Act γ → Prop} {α : Type}

theorem pure (law : Act.Law C) {reply : Reply} (keys : ∀ member ∈ reply, Reply.Key member.1) :
    Answering C (pure reply) :=
  ⟨law.pure reply, fun _ => keys⟩

theorem bind (law : Act.Law C) {x : Act α} {f : α → Act Reply} (first : C x)
    (next : ∀ a, Answering C (f a)) : Answering C (x >>= f) :=
  ⟨law.bind first fun a => (next a).law, fun s => (next (x.result s)).keys (x.after s)⟩

end Answering

variable {C : ∀ {γ : Type}, Act γ → Prop} {s : Scene} {self : String} {method : String}
  {packet : Fields} {act : Act Reply}

/-! ### Grips -/

/-- The primitive steps by which values are gripped for an owner. -/
structure Gripping (C : ∀ {γ : Type}, Act γ → Prop) (owner : String) : Prop where
  law : Act.Law C
  read : C (get : Act Scene)
  call : ∀ site ref receiver, C ((Grip.gripper site owner).call ref receiver)
  actor : ∀ ref, C (Grip.actorOf owner ref)
  text : ∀ text, C (LongString.keep owner text)

namespace Gripping

variable {owner : String} (steps : Gripping C owner) (site : Site)

include steps

theorem grip (text : String) : C (LongString.grip owner text) := by
  refine steps.law.bind steps.read fun s => ?_
  split
  · exact steps.text text
  · exact steps.law.pure _

theorem obeys : (Grip.gripper site owner).Obeys C where
  pure := steps.law.pure
  bind := steps.law.bind
  object _ := steps.law.bind steps.read fun _ => steps.law.pure _
  call := steps.call site
  objectGrip ref := steps.law.bind (steps.actor ref) fun _ => steps.law.bind steps.read fun _ => steps.law.pure _
  longStringGrip := steps.text

theorem owned (v : Value) : C (Grip.owned owner v) :=
  steps.law.bind steps.read fun s => (steps.obeys s.site).value v

end Gripping

/-! ### The handlers -/

theorem Tabs.decideRoot_answering (law : Act.Law C) {actor : RootActor}
    (accepted : Tabs.decideRoot s actor method = .ok act) : Answering C act := by
  unfold Tabs.decideRoot at accepted
  split at accepted <;> cases accepted <;> exact .pure law (by simp [Reply.Key])

theorem Tabs.decideTab_answering (law : Act.Law C) {actor : TabActor}
    (accepted : Tabs.decideTab actor method = .ok act) : Answering C act := by
  unfold Tabs.decideTab at accepted
  split at accepted <;> cases accepted <;> exact .pure law (by simp [Reply.Key])

/-- Changes the walkers that an inspector remembers; any other actor stays as it is. -/
def Actor.setWalkers (f : List String → List String) : Actor → Actor
  | .inspector i => .inspector { i with walkers := f i.walkers }
  | other => other

theorem Inspector.decide_answering (law : Act.Law C) {actor : InspectorActor}
    (walker : C (Walker.register self actor.host)) (update : ∀ f, C (Act.update self (Actor.setWalkers f)))
    (accepted : Inspector.decide self actor method = .ok act) : Answering C act := by
  unfold Inspector.decide at accepted
  split at accepted
  · cases accepted
    exact .bind law walker fun made => .bind law (update (· ++ [made.1])) fun _ => .pure law (by simp [Reply.Key])
  · cases accepted

section

variable (law : Act.Law C) (read : C (get : Act Scene))

include law read

theorem Walker.ref_law {walker host : String} {node : NodeId} (site : ∀ f, C (Act.site f))
    (actor : ∀ observer, C (Act.register "domnode" walker (.node ⟨host, walker, node, observer⟩)))
    (known : ∀ name, C (Act.updateWalker walker fun w => { w with known := w.known.insert node name })) :
    C (Walker.ref walker host node) := by
  have named (observer : Option ObserverId) :
      C (Act.register "domnode" walker (.node ⟨host, walker, node, observer⟩) >>= fun name =>
        Act.updateWalker walker (fun w => { w with known := w.known.insert node name }) >>= fun _ =>
          pure name) :=
    law.bind (actor observer) fun _ => law.bind (known _) fun _ => law.pure _
  refine law.bind read fun s => ?_
  split
  · exact law.pure _
  · split
    · exact law.bind (site _) fun _ => law.bind (law.pure _) fun observer => named observer
    · exact law.bind (law.pure _) fun observer => named observer

theorem Grip.actorOf_law {owner : String} {ref : ObjectRef}
    (actor : C (Act.register "obj" owner (.object ⟨owner, ref⟩)))
    (scripts : ∀ f : Table ObjectId String → Table ObjectId String, C (modify (·.setRegistry fun r => { r with scripts := f r.scripts }))) :
    C (Grip.actorOf owner ref) := by
  refine law.bind read fun s => ?_
  dsimp only
  split
  · exact law.pure _
  · exact law.bind actor fun name => law.bind (scripts fun t => t.insert ref.id name) fun _ => law.pure _

theorem Walker.form?_law (ref : ∀ walker host node, C (Walker.ref walker host node)) (name : String) :
    C (Walker.form? name) := by
  refine law.bind read fun s => ?_
  split
  · exact law.pure _
  · dsimp only
    split
    · exact law.bind (ref _ _ _) fun _ => law.pure _
    · exact law.pure _

theorem Walker.releaseNode_law (release : ∀ name, C (Act.release name)) (walker host name : String) :
    C (Walker.releaseNode walker host name) := by
  have below (fuel : Nat) (name : String) : C (Walker.releaseBelow walker host fuel name) := by
    induction fuel generalizing name with
    | zero => exact law.pure _
    | succ fuel ih =>
      refine law.bind read fun s => ?_
      split
      · exact law.pure _
      · refine law.bind (law.forM_mem fun child _ => ?_) fun _ => release name
        refine law.bind read fun t => ?_
        split
        · exact ih _
        · exact law.pure _
  exact law.bind read fun _ => below _ _

end

namespace Walker

variable {walker : String} (law : Act.Law C)

include law

theorem queue_law {records : List Mutation} (w : WalkerActor)
    (append : C (Act.updateWalker walker fun w => { w with queue := w.queue ++ records }))
    (tell : C (Act.event (.object [("from", .str walker), ("type", .str "newMutations")]))) :
    C (queue walker w records) := by
  unfold queue
  split
  · exact law.pure _
  · refine law.bind append fun _ => ?_
    split
    · exact tell
    · exact law.pure _

variable (read : C (get : Act Scene)) (queues : ∀ w records, C (queue walker w records))

include read queues

theorem onChanges_law (changes : List Dom.Change) (mark : ∀ w, C (Act.updateWalker walker fun _ => w)) :
    C (onChanges walker changes) := by
  refine law.bind read fun s => ?_
  split
  · exact law.pure _
  · exact law.bind (mark _) fun _ => queues _ _

theorem onFrameLoad_law (frame : NodeId) : C (onFrameLoad walker frame) := by
  refine law.bind read fun s => ?_
  split
  · exact law.pure _
  · split
    · exact law.pure _
    · exact queues _ _

theorem onDocumentUnload_law (document : NodeId) (release : ∀ host name, C (releaseNode walker host name)) :
    C (onDocumentUnload walker document) := by
  refine law.bind read fun s => ?_
  split
  · exact law.pure _
  · split
    · exact law.pure _
    · exact law.bind (queues _ _) fun _ => release _ _

end Walker

structure Walking.Steps (C : ∀ {γ : Type}, Act γ → Prop) (walker host : String) : Prop where
  law : Act.Law C
  read : C (get : Act Scene)
  ref : ∀ node, C (Walker.ref walker host node)
  form : ∀ name, C (Walker.form? name)

namespace Walking.Steps

variable {walker host : String} (steps : Walking.Steps C walker host)

include steps

theorem optionalForm (name : Option String) : C (Walker.form name) := by
  cases name with
  | none => exact steps.law.pure _
  | some name => exact steps.law.bind (steps.form name) fun _ => steps.law.pure _

theorem forms (names : List String) : C (Walker.forms names) :=
  steps.law.bind (steps.law.mapM steps.form names) fun _ => steps.law.pure _

theorem refUntilKnown (nodes : List NodeId) : C (Walker.refUntilKnown walker host nodes) := by
  induction nodes with
  | nil => exact steps.law.pure _
  | cons node rest ih =>
    refine steps.law.bind steps.read fun s => ?_
    split
    · exact steps.law.pure _
    · exact steps.law.bind (steps.ref node) fun _ => steps.law.bind ih fun _ => steps.law.pure _

theorem ensurePath (node : NodeId) : C (Walker.ensurePath walker host node) :=
  steps.law.bind steps.read fun _ => steps.refUntilKnown _

theorem nodeReply (node : Option NodeId) : Answering C (Walker.nodeReply walker host node) :=
  .bind steps.law (steps.law.optionMapM steps.ref node) fun name =>
    .bind steps.law (steps.optionalForm name) fun _ => .pure steps.law (by simp [Reply.Key])

theorem pageReply (page : NodePage) : Answering C (Walker.pageReply walker host page) :=
  .bind steps.law (steps.law.mapM steps.ref _) fun names =>
    .bind steps.law (steps.forms names) fun _ => .pure steps.law (by simp [Reply.Key])

theorem queryReply (found : Option NodeId) : Answering C (Walker.queryReply walker host found) := by
  cases found with
  | none => exact .pure steps.law (by simp)
  | some found =>
    exact .bind steps.law (steps.ref found) fun name =>
      .bind steps.law (steps.ensurePath found) fun path =>
      .bind steps.law (steps.optionalForm (some name)) fun _ =>
      .bind steps.law (steps.forms path) fun _ => .pure steps.law (by simp [Reply.Key])

theorem fetch (node : NodeId) : C (NodeList.fetch walker host node) :=
  steps.law.bind (steps.ensurePath node) fun _ => steps.law.bind (steps.ref node) fun _ => steps.law.pure _

end Walking.Steps

inductive Walker.Task (self : String) (w : WalkerActor) : String → Act Reply → Prop
  | tells {method : String} (node : Option NodeId) : Task self w method (nodeReply self w.host node)
  | climbs {method : String} (nodes : List NodeId) : Task self w method (do
      let names ← nodes.mapM (ref self w.host)
      return [("nodes", ← forms names)])
  | pages {method : String} (page : NodePage) : Task self w method (pageReply self w.host page)
  | queries {method : String} (found : Option NodeId) : Task self w method (queryReply self w.host found)
  | lists {method : String} (found : List NodeId) : Task self w method (do
      let list ← Act.register "domnodelist" self (.nodeList ⟨self, found⟩)
      return [("list", .object [("actor", .str list), ("length", .nat found.length)])])
  | releases {method : String} (name : String) : Task self w method (do
      releaseNode self w.host name
      return [])
  | fetches (cleanup : Bool) : Task self w "getMutations" (do
      let records ← takeMutations self w cleanup
      return [("mutations", .arr (records.map Mutation.toJson))])
  | leaves {method : String} : Task self w method (pure [])

theorem Walker.decide_task {w : WalkerActor} (accepted : Walker.decide s self w method packet = .ok act) :
    Task self w method act := by
  unfold Walker.decide at accepted
  split at accepted
  case h_1 | h_2 | h_6 | h_7 =>
    obtain ⟨node, _, accepted⟩ := Decision.bind_ok accepted
    cases accepted
    exact .tells _
  case h_3 =>
    obtain ⟨node, _, accepted⟩ := Decision.bind_ok accepted
    cases accepted
    exact .climbs _
  case h_4 | h_5 =>
    obtain ⟨node, _, accepted⟩ := Decision.bind_ok accepted
    obtain ⟨options, _, accepted⟩ := Decision.bind_ok accepted
    obtain ⟨page, _, accepted⟩ := Decision.bind_ok accepted
    cases accepted
    exact .pages page
  case h_8 =>
    obtain ⟨base, _, accepted⟩ := Decision.bind_ok accepted
    obtain ⟨text, _, accepted⟩ := Decision.bind_ok accepted
    obtain ⟨found, _, accepted⟩ := Decision.bind_ok accepted
    cases accepted
    exact .queries _
  case h_9 =>
    obtain ⟨base, _, accepted⟩ := Decision.bind_ok accepted
    obtain ⟨text, _, accepted⟩ := Decision.bind_ok accepted
    obtain ⟨found, _, accepted⟩ := Decision.bind_ok accepted
    cases accepted
    exact .lists found
  case h_10 =>
    obtain ⟨name, _, accepted⟩ := Decision.bind_ok accepted
    obtain ⟨node, _, accepted⟩ := Decision.bind_ok accepted
    cases accepted
    exact .releases name
  case h_11 =>
    cases accepted
    exact .fetches _
  case h_12 =>
    cases accepted
    exact .leaves
  case h_13 => cases accepted

theorem Walker.decide_answering {w : WalkerActor} (steps : Walking.Steps C self w.host)
    (list : ∀ nodes, C (Act.register "domnodelist" self (.nodeList ⟨self, nodes⟩)))
    (release : ∀ name, C (Walker.releaseNode self w.host name))
    (take : method = "getMutations" → ∀ cleanup, C (Walker.takeMutations self w cleanup))
    (accepted : Walker.decide s self w method packet = .ok act) : Answering C act := by
  have law := steps.law
  cases Walker.decide_task accepted with
  | tells node => exact steps.nodeReply node
  | climbs nodes =>
    exact .bind law (law.mapM steps.ref _) fun names =>
      .bind law (steps.forms names) fun _ => .pure law (by simp [Reply.Key])
  | pages page => exact steps.pageReply page
  | queries found => exact steps.queryReply found
  | lists found => exact .bind law (list found) fun _ => .pure law (by simp [Reply.Key])
  | releases name => exact .bind law (release name) fun _ => .pure law (by simp)
  | fetches cleanup => exact .bind law (take rfl cleanup) fun _ => .pure law (by simp [Reply.Key])
  | leaves => exact .pure law (by simp)

theorem Node.decide_answering {actor : NodeActor} (steps : Gripping C self)
    (write : ∀ origin host node value, C (Act.site (·.setNodeValue origin host node value)))
    (accepted : Node.decide s self actor method packet = .ok act) : Answering C act := by
  unfold Node.decide at accepted
  split at accepted
  · cases accepted
    exact .bind steps.law (steps.grip _) fun _ => .pure steps.law (by simp [Reply.Key])
  · obtain ⟨value, _, accepted⟩ := Decision.bind_ok accepted
    cases accepted
    exact .bind steps.law (write _ _ _ _) fun _ => .pure steps.law (by simp)
  · cases accepted

theorem NodeList.decide_answering {list : NodeListActor}
    (steps : ∀ w, s.walker? list.walker = some w → Walking.Steps C list.walker w.host) (law : Act.Law C)
    (accepted : NodeList.decide s list method packet = .ok act) : Answering C act := by
  unfold NodeList.decide at accepted
  split at accepted
  · cases accepted
  · rename_i w live
    have steps := steps w live
    split at accepted
    · dsimp only at accepted
      split at accepted
      · cases accepted
      · cases accepted
        exact .bind law (steps.fetch _) fun found => .bind law (steps.optionalForm _) fun _ =>
          .bind law (steps.forms _) fun _ => .pure law (by simp [Reply.Key])
    · cases accepted
      exact .bind law (law.mapM steps.fetch _) fun found => .bind law (steps.forms _) fun _ =>
        .bind law (steps.forms _) fun _ => .pure law (by simp [Reply.Key])
    · cases accepted
      exact .pure law (by simp)
    · cases accepted

theorem LongString.decide_answering (law : Act.Law C) {text : String}
    (accepted : LongString.decide text method packet = .ok act) : Answering C act := by
  unfold LongString.decide at accepted
  split at accepted
  · obtain ⟨first, _, accepted⟩ := Decision.bind_ok accepted
    obtain ⟨last, _, accepted⟩ := Decision.bind_ok accepted
    cases accepted
    exact .pure law (by simp [Reply.Key])
  · cases accepted
    exact .pure law (by simp)
  · cases accepted

/-- The steps of a console that leave its debugger alone. -/
structure Console.Plain (C : ∀ {γ : Type}, Act γ → Prop) (console : String) : Prop extends Gripping C console where
  /-- Requests are the monitor's, not the console's own; a debugger is only ever made by `debugger`. -/
  update : ∀ {f}, (∀ c : ConsoleActor, (f c).requests = c.requests ∧ (f c).debugger = c.debugger) →
    C (Act.updateConsole console f)
  clear : ∀ page, C (Act.site (·.setPage page fun p => { p with cache := [] }))

structure Console.Steps (C : ∀ {γ : Type}, Act γ → Prop) (console : String) (c : ConsoleActor) : Prop
    extends Console.Plain C console where
  debugger : C (Evaluation.debugger console c)
  evaluate : ∀ target self source, C (Evaluation.evaluate console c target self source)

theorem Console.Steps.of_site {console : String} (steps : Gripping C console) (site : ∀ f, C (Act.site f))
    (update : ∀ {f}, (∀ c : ConsoleActor, (f c).requests = c.requests) → C (Act.updateConsole console f))
    (c : ConsoleActor) : Console.Steps C console c := by
  have debugger : C (Evaluation.debugger console c) := by
    unfold Evaluation.debugger
    split
    · exact steps.law.pure _
    · exact steps.law.bind steps.read fun _ => steps.law.bind (site _) fun _ =>
        steps.law.bind (update fun _ => rfl) fun _ => steps.law.pure _
  exact { steps with
    update := fun same => update fun c => (same c).1
    debugger := debugger
    evaluate := fun _ _ _ => steps.law.bind debugger fun _ => steps.law.bind steps.read fun _ =>
      steps.law.bind (site _) fun _ => steps.law.pure _
    clear := fun _ => site _ }

namespace Console.Plain

variable {console : String} (steps : Console.Plain C console)

include steps

theorem messageForm (m : ConsoleMessage) : C (Console.messageForm console m) :=
  steps.law.bind (steps.law.mapM steps.owned _) fun _ => steps.law.pure _

theorem cachedForm? (c : ConsoleActor) (types : List String) (m : CachedMessage) :
    C (Console.cachedForm? console c types m) := by
  cases m with
  | consoleApi m =>
    simp only [Console.cachedForm?]
    split
    · exact steps.law.bind (steps.messageForm m) fun _ => steps.law.pure _
    · exact steps.law.pure _
  | pageError e =>
    simp only [Console.cachedForm?]
    split <;> exact steps.law.pure _

theorem wishForm (source : String) (wish : Option Wish) : C (Evaluation.wishForm console source wish) := by
  unfold Evaluation.wishForm
  split
  case h_4 => exact steps.law.bind (steps.owned _) fun _ => steps.law.pure _
  all_goals exact steps.law.pure _

theorem reply (c : ConsoleActor) (text : String) (bound frame : Option String) :
    ∃ (target : Scene → EvalTarget) (self : Scene → Option ObjectRef)
      (rest : Scene → Completion Value × Option Wish → Act Reply),
      Evaluation.reply console c text bound frame = (get >>= fun s =>
        Evaluation.evaluate console c (target s) (self s) (Evaluation.sourceOf text) >>= rest s) ∧
      ∀ s found, Answering C (rest s found) := by
  have law := steps.law
  refine ⟨_, _, _, rfl, fun s found => .bind law steps.read fun after => ?_⟩
  obtain ⟨result, wish⟩ := found
  have last (reply : Json → Reply) (keys : ∀ wished, ∀ member ∈ reply wished, Reply.Key member.1) :
      Answering C (Evaluation.wishForm console (Evaluation.sourceOf text) wish >>= fun wished =>
        pure (reply wished)) :=
    .bind law (steps.wishForm _ _) fun wished => .pure law (keys wished)
  cases result with
  | returned v | yielded v =>
    exact .bind law (steps.update fun _ => ⟨rfl, rfl⟩) fun _ => .bind law (steps.owned v) fun _ =>
      .bind law (law.pure _) fun _ => last _ (by simp [Reply.Key])
  | threw v =>
    exact .bind law (law.pure _) fun _ => .bind law (steps.owned v) fun _ => last _ (by simp [Reply.Key])
  | terminated =>
    exact .bind law (law.pure _) fun _ => .bind law (law.pure _) fun _ => last _ (by simp [Reply.Key])

end Console.Plain

theorem Console.foldl_startListening (listeners : List Listener) (c : ConsoleActor) :
    (listeners.foldl Console.startListening c).requests = c.requests ∧
      (listeners.foldl Console.startListening c).debugger = c.debugger := by
  induction listeners generalizing c with
  | nil => exact ⟨rfl, rfl⟩
  | cons l rest ih =>
    rw [List.foldl_cons, (ih _).1, (ih _).2, Console.startListening]
    split <;> exact ⟨rfl, rfl⟩

/-- What a console does about a request: nothing with its debugger, or first of all it takes it, to complete
a text or to evaluate one. -/
theorem Console.decide_cases {c : ConsoleActor} (steps : Console.Plain C self)
    (accepted : Console.decide s self c method packet = .ok act) :
    Answering C act ∨
      (∃ rest, act = Evaluation.debugger self c >>= rest ∧ ∀ id, Answering C (rest id)) ∨
      ∃ (target : Scene → EvalTarget) (bound : Scene → Option ObjectRef) (source : String)
        (rest : Scene → Completion Value × Option Wish → Act Reply),
        act = (get >>= fun s => Evaluation.evaluate self c (target s) (bound s) source >>= rest s) ∧
          ∀ s found, Answering C (rest s found) := by
  have law := steps.law
  unfold Console.decide at accepted
  split at accepted
  · cases accepted
    exact .inl (.bind law (steps.update (Console.foldl_startListening _)) fun _ =>
      .pure law (by simp [Reply.Key]))
  · cases accepted
    exact .inl (.bind law (steps.update fun _ => ⟨rfl, rfl⟩) fun _ => .pure law (by simp [Reply.Key]))
  · cases accepted
    exact .inl (.bind law (law.mapM (steps.cachedForm? _ _) _) fun _ => .pure law (by simp [Reply.Key]))
  · split at accepted
    · cases accepted
    · cases accepted
      obtain ⟨target, bound, rest, same, answering⟩ := steps.reply c _ _ _
      exact .inr (.inr ⟨target, bound, _, rest, same, answering⟩)
  · cases accepted
    exact .inr (.inl ⟨_, rfl, fun _ => .pure law (by simp [Reply.Key])⟩)
  · cases accepted
    exact .inl (.bind law (steps.clear _) fun _ => .pure law (by simp))
  · split at accepted
    · cases accepted
    · cases accepted
      exact .inl (.bind law (steps.update fun _ => ⟨rfl, rfl⟩) fun _ => .pure law (by simp [Reply.Key]))
  · cases accepted

theorem Console.decide_answering {c : ConsoleActor} (steps : Console.Steps C self c)
    (accepted : Console.decide s self c method packet = .ok act) : Answering C act := by
  have law := steps.law
  rcases Console.decide_cases steps.toPlain accepted with plain | ⟨rest, rfl, answering⟩ | evaluated
  · exact plain
  · exact .bind law steps.debugger answering
  · obtain ⟨target, bound, source, rest, rfl, answering⟩ := evaluated
    exact .bind law steps.read fun s => .bind law (steps.evaluate _ _ _) (answering s)

theorem ScriptObject.decide_answering {actor : ObjectActor} (steps : Gripping C actor.owner)
    (accepted : ScriptObject.decide s actor method packet = .ok act) : Answering C act := by
  have law := steps.law
  have own := steps.obeys s.site
  unfold ScriptObject.decide at accepted
  dsimp only at accepted
  split at accepted
  · cases accepted
    exact .bind law (own.ownProperties _) fun _ => .bind law (own.safeGetters _ _ _ _ _ _ _) fun _ =>
      .bind law (own.prototype _) fun _ => .pure law (by simp [Reply.Key])
  · cases accepted
    exact .bind law (own.prototype _) fun _ => .pure law (by simp [Reply.Key])
  · split at accepted
    · cases accepted
    · cases accepted
      exact .bind law (own.property _ _) fun _ => .pure law (by simp [Reply.Key])
  · cases accepted
    exact .pure law (by simp [Reply.Key])
  · cases accepted
    exact .pure law (by simp)
  · cases accepted

namespace Gripping

variable {owner : String} (steps : Gripping C owner)

include steps

theorem headerForms (headers : List HttpHeader) : C (Network.headerForms owner headers) :=
  steps.law.bind (steps.law.mapM (fun _ => steps.law.bind (steps.grip _) fun _ => steps.law.pure _) _)
    fun _ => steps.law.pure _

theorem bodyForm (mimeType : Option String) (body : List UInt8) : C (Network.bodyForm owner mimeType body) := by
  unfold Network.bodyForm
  dsimp only
  split
  · exact steps.law.bind (steps.grip _) fun _ => steps.law.pure _
  · exact steps.law.pure _

end Gripping

theorem Network.optionalForm_law (law : Act.Law C) {form : Option (Act Json)}
    (each : ∀ act ∈ form, C act) : C (Network.optionalForm form) := by
  cases form with
  | none => exact law.pure _
  | some act => exact each act rfl

theorem Network.decide_answering {n : NetworkActor} (steps : Gripping C self)
    (accepted : Network.decide self n method = .ok act) : Answering C act := by
  have law := steps.law
  unfold Network.decide at accepted
  split at accepted
  case h_1 =>
    cases accepted
    exact .pure law (by simp)
  case h_2 | h_3 | h_5 | h_6 =>
    cases accepted
    exact .bind law (steps.headerForms _) fun _ => .pure law (by simp [Reply.Key])
  case h_4 | h_7 =>
    cases accepted
    refine .bind law (Network.optionalForm_law law fun act member => ?_) fun _ =>
      .pure law (by simp [Reply.Key])
    obtain ⟨body, _, rfl⟩ := Option.map_eq_some_iff.mp member
    exact steps.bodyForm _ _
  case h_8 =>
    cases accepted
    exact .pure law (by simp [Reply.Key])
  case h_9 => cases accepted

theorem Thread.decide_answering (law : Act.Law C) {actor : ThreadActor}
    (release : ∀ name ∈ actor.frames, C (Act.release name)) (handOut : ∀ frames, C (Thread.handOut self frames))
    (accepted : Thread.decide s self actor method packet = .ok act) : Answering C act := by
  unfold Thread.decide at accepted
  split at accepted
  · cases accepted
    exact .bind law (law.forM_mem release) fun _ => .bind law (handOut _) fun _ =>
      .pure law (by simp [Reply.Key])
  · cases accepted

structure Tracer.Steps (C : ∀ {γ : Type}, Act γ → Prop) (tracer : String) : Prop where
  law : Act.Law C
  attach : ∀ host, C (Tracer.attach tracer host)
  detach : C (modify (·.detach tracer))
  start : ∀ t id given types, C (Tracer.start tracer t id given types)
  stop : ∀ t id name, C (Tracer.stop tracer t id name)

/-- Where the site and the state of a tracer may be changed at will, traces can be started and stopped. -/
theorem Tracer.Steps.of_site {tracer : String} (law : Act.Law C) (read : C (get : Act Scene))
    (site : ∀ f, C (Act.site f)) (state : ∀ f, C (modify (·.setTracing tracer f)))
    (detach : C (modify (·.detach tracer))) : Tracer.Steps C tracer where
  law := law
  attach _ := law.bind read fun _ => law.bind (site _) fun _ => state _
  detach := detach
  start t id given types := by
    unfold Tracer.start
    split
    · exact law.bind (law.bind read fun _ => site _) fun _ => state _
    · exact state _
  stop t id name := by
    refine law.bind (state _) fun _ => ?_
    split
    · exact law.bind read fun _ => site _
    · exact law.pure _

theorem Tracer.decide_answering {host : String} (steps : Tracer.Steps C self)
    (accepted : Tracer.decide s self host method packet = .ok act) : Answering C act := by
  have law := steps.law
  unfold Tracer.decide at accepted
  dsimp only at accepted
  split at accepted
  · split at accepted
    · cases accepted
    · cases accepted
      exact .bind law (steps.attach host) fun _ => .pure law (by simp [Reply.Key])
  · cases accepted
    exact .bind law steps.detach fun _ => .pure law (by simp [Reply.Key])
  · obtain ⟨types, _, accepted⟩ := Decision.bind_ok accepted
    split at accepted
    · cases accepted
    · cases accepted
      exact .bind law (steps.start _ _ _ _) fun _ => .pure law (by simp [Reply.Key, Tracer.traceReply])
  · split at accepted
    · split at accepted
      · cases accepted
      · cases accepted
        exact .bind law (steps.stop _ _ _) fun _ => .pure law (by simp [Reply.Key, Tracer.traceReply])
    · cases accepted
  · cases accepted

/-- The primitive steps that an actor's handler may take in a scene. -/
def Actor.Steps (C : ∀ {γ : Type}, Act γ → Prop) (s : Scene) (self : String) : Actor → Prop
  | .inspector actor =>
    C (Walker.register self actor.host) ∧ ∀ f, C (Act.update self (Actor.setWalkers f))
  | .walker w =>
    Walking.Steps C self w.host ∧
      (∀ nodes, C (Act.register "domnodelist" self (.nodeList ⟨self, nodes⟩))) ∧
      (∀ name, C (Walker.releaseNode self w.host name)) ∧
      ∀ cleanup, C (Walker.takeMutations self w cleanup)
  | .node _ => Gripping C self ∧ ∀ origin host node value, C (Act.site (·.setNodeValue origin host node value))
  | .nodeList list => ∀ w, s.walker? list.walker = some w → Walking.Steps C list.walker w.host
  | .console c => Console.Steps C self c
  | .object actor => Gripping C actor.owner
  | .network _ => Gripping C self
  | .thread actor =>
    (∀ name ∈ actor.frames, C (Act.release name)) ∧ ∀ frames, C (Thread.handOut self frames)
  | .trace _ => Tracer.Steps C self
  | _ => True

theorem Request.decide_answering (law : Act.Law C) {actor : Actor} (steps : actor.Steps C s self)
    (accepted : Request.decide s self method packet actor = .ok act) : Answering C act := by
  cases actor with
  | root actor => exact Tabs.decideRoot_answering law accepted
  | tab actor => exact Tabs.decideTab_answering law accepted
  | inspector actor => exact Inspector.decide_answering law steps.1 steps.2 accepted
  | walker w => exact Walker.decide_answering steps.1 steps.2.1 steps.2.2.1 (fun _ => steps.2.2.2) accepted
  | node actor => exact Node.decide_answering steps.1 steps.2 accepted
  | nodeList list => exact NodeList.decide_answering steps law accepted
  | longString text => exact LongString.decide_answering law accepted
  | console c => exact Console.decide_answering steps accepted
  | object actor => exact ScriptObject.decide_answering steps accepted
  | network n => exact Network.decide_answering steps accepted
  | thread actor => exact Thread.decide_answering law steps.1 steps.2 accepted
  | frame actor => cases accepted
  | trace host => exact Tracer.decide_answering steps accepted

end RemoteInspector
