import RemoteInspector.Proofs.Serve.Handlers
import RemoteInspector.Serve.Connection
/-!
The deeds that all acts of a connection are made of: a law of these is a law of every handler and of every event that
is no walker's concern.
-/
namespace RemoteInspector

namespace Actor

/-- The records that wait for the client; only a walker has any. -/
def queue? : Actor → Option (List Mutation)
  | .walker w => some w.queue
  | _ => none

inductive Tie
  | walker (host : String) (root : NodeId) (known : Table NodeId String) (orphans : List String)
  | node (actor : NodeActor)
  | console (debugger : Option DebuggerId)
  | trace

def tie? : Actor → Option Tie
  | .walker w => some (.walker w.host w.root w.known w.orphans)
  | .node actor => some (.node actor)
  | .console c => some (.console c.debugger)
  | .trace _ => some .trace
  | _ => none

/-- What an actor knows of the requests of a page: a console the actors they have, such an actor all about its own. -/
inductive Link
  | console (requests : Table String String)
  | network (actor : NetworkActor)

def link? : Actor → Option Link
  | .console c => some (.console c.requests)
  | .network n => some (.network n)
  | _ => none

/-- What an actor is from its registration on. Only the root has something that comes and goes, the tabs. -/
inductive Kind
  | root (actor : RootActor)
  | tab (actor : TabActor)
  | inspector
  | walker
  | node (actor : NodeActor)
  | nodeList (actor : NodeListActor)
  | longString (text : String)
  | console
  | object (actor : ObjectActor)
  | network
  | thread
  | frame (actor : FrameActor)
  | trace (host : String)

def kind : Actor → Kind
  | .root actor => .root actor
  | .tab actor => .tab actor
  | .inspector _ => .inspector
  | .walker _ => .walker
  | .node actor => .node actor
  | .nodeList actor => .nodeList actor
  | .longString text => .longString text
  | .console _ => .console
  | .object actor => .object actor
  | .network _ => .network
  | .thread _ => .thread
  | .frame actor => .frame actor
  | .trace host => .trace host

/-- An actor that has changed in nothing but what it keeps for itself. -/
structure Same (a b : Actor) : Prop where
  tie : b.tie? = a.tie?
  queue : b.queue? = a.queue?
  kind : b.kind = a.kind
  link : b.link? = a.link?

/-- An actor as it may be registered: nothing ties it to anything but its owner. -/
def Fresh : Actor → Prop
  | .walker w => w.known = [] ∧ w.orphans = []
  | .node _ => False
  | .console c => c.debugger = none
  | _ => True

end Actor

namespace Walker

def dropOrphans (walker : String) (w : WalkerActor) (cleanup : Bool) : Act Unit := do
  if cleanup then
    Act.updateWalker walker fun w => { w with orphans := [] }
    w.orphans.forM (releaseNode walker w.host)

theorem takeMutations_eq (walker : String) (w : WalkerActor) (cleanup : Bool) :
    takeMutations walker w cleanup = (do
      Act.updateWalker walker fun w => { w with queue := [] }
      dropOrphans walker w cleanup
      return w.queue) := by
  cases cleanup <;> rfl

end Walker

/-- Deeds that touch no queue, write nothing, make no debugger and leave the requests of pages aside. -/
structure Deeds (C : ∀ {γ : Type}, Act γ → Prop) : Prop where
  law : Act.Law C
  read : C (get : Act Scene)
  call : ∀ site owner ref receiver, C ((Grip.gripper site owner).call ref receiver)
  register : ∀ {kind} owner {actor : Actor}, kind ∈ Registry.kinds → actor.Fresh → actor.object? = none →
    actor.link? = none → C (Act.register kind owner actor)
  object : ∀ owner ref, C (Grip.actorOf owner ref)
  update : ∀ name {f : Actor → Actor}, (∀ a : Actor, a.Same (f a)) → C (Act.update name f)
  registerWalker : ∀ owner host, C (Walker.register owner host)
  form : ∀ name, C (Walker.form? name)
  orphans : ∀ walker, C (Act.updateWalker walker fun w => { w with orphans := [] })
  release : ∀ name, C (Act.release name)
  write : ∀ origin host node value, C (Act.site (·.setNodeValue origin host node value))
  clear : ∀ page, C (Act.site (·.setPage page fun p => { p with cache := [] }))

/-- The walker for which an actor makes node actors, and its host. -/
def Actor.Walks (s : Scene) (self : String) : Actor → String → String → Prop
  | .walker w, own, host => own = self ∧ host = w.host
  | .nodeList list, own, host => own = list.walker ∧ ∃ w, s.walker? own = some w ∧ host = w.host
  | _, _, _ => False

namespace Deeds

variable {C : ∀ {γ : Type}, Act γ → Prop} (deeds : Deeds C)

include deeds

theorem gripping (owner : String) : Gripping C owner where
  law := deeds.law
  read := deeds.read
  call site ref receiver := deeds.call site owner ref receiver
  actor ref := deeds.object owner ref
  text text :=
    deeds.law.bind deeds.read fun _ =>
      deeds.law.bind (deeds.register _ (by decide) trivial rfl rfl) fun _ => deeds.law.pure _

theorem updateConsole (name : String) {f : ConsoleActor → ConsoleActor}
    (kept : ∀ c, (f c).requests = c.requests ∧ (f c).debugger = c.debugger) : C (Act.updateConsole name f) := by
  refine deeds.update name fun a => ?_
  cases a with
  | console c =>
    exact ⟨congrArg (some <| Actor.Tie.console ·) (kept c).2, rfl, rfl,
      congrArg (some <| Actor.Link.console ·) (kept c).1⟩
  | _ => exact ⟨rfl, rfl, rfl, rfl⟩

/-! ### Walkers -/

theorem walking {walker host : String} (ref : ∀ node, C (Walker.ref walker host node)) :
    Walking.Steps C walker host where
  law := deeds.law
  read := deeds.read
  ref := ref
  form := deeds.form

theorem releaseNode (walker host name : String) : C (Walker.releaseNode walker host name) :=
  Walker.releaseNode_law deeds.law deeds.read deeds.release walker host name

theorem dropOrphans (walker : String) (w : WalkerActor) (cleanup : Bool) : C (Walker.dropOrphans walker w cleanup) := by
  unfold Walker.dropOrphans
  split
  · exact deeds.law.bind (deeds.orphans walker) fun _ =>
      deeds.law.forM_mem fun name _ => deeds.releaseNode _ _ name
  · exact deeds.law.pure _

theorem takeMutations {walker : String} (w : WalkerActor)
    (empty : C (Act.updateWalker walker fun w => { w with queue := [] })) (cleanup : Bool) :
    C (Walker.takeMutations walker w cleanup) := by
  rw [Walker.takeMutations_eq]
  exact deeds.law.bind empty fun _ =>
    deeds.law.bind (deeds.dropOrphans walker w cleanup) fun _ => deeds.law.pure _

theorem setWalkers (name : String) (f : List String → List String) : C (Act.update name (Actor.setWalkers f)) := by
  refine deeds.update name fun a => ?_
  cases a <;> exact ⟨rfl, rfl, rfl, rfl⟩

theorem inspectorWalkers (name : String) : C (Inspector.walkers name) := by
  refine deeds.law.bind deeds.read fun s => ?_
  split
  · exact deeds.law.pure _
  · exact deeds.law.bind (deeds.setWalkers name fun _ => _) fun _ => deeds.law.pure _

theorem walkers (s : Scene) (tab : TabId) : C (Serve.walkers s tab) := by
  unfold Serve.walkers
  split
  · exact deeds.inspectorWalkers _
  · exact deeds.law.pure _

/-! ### Handlers -/

theorem handOut (self : String) (frames : List FrameActor) : C (Thread.handOut self frames) := by
  refine deeds.law.bind (deeds.law.mapM (fun _ => ?_) frames) fun _ =>
    deeds.law.bind (deeds.update self fun a => ?_) fun _ => deeds.law.pure _
  · exact deeds.law.bind (deeds.register _ (by decide) trivial rfl rfl) fun _ => deeds.law.pure _
  · cases a <;> exact ⟨rfl, rfl, rfl, rfl⟩

/-- The steps of any handler, given those by which a walker gets to know nodes and gives its records
away and those that take a debugger. -/
theorem handler (s : Scene) (self : String) (actor : Actor)
    (ref : ∀ {walker host}, actor.Walks s self walker host → ∀ node, C (Walker.ref walker host node))
    (empty : ∀ w, actor = .walker w → C (Act.updateWalker self fun w => { w with queue := [] }))
    (console : ∀ c, actor = .console c → Console.Steps C self c)
    (tracer : ∀ host, actor = .trace host → Tracer.Steps C self) : actor.Steps C s self := by
  cases actor with
  | inspector i => exact ⟨deeds.registerWalker _ _, deeds.setWalkers self⟩
  | walker w =>
    exact ⟨deeds.walking (ref ⟨rfl, rfl⟩), fun _ => deeds.register _ (by decide) trivial rfl rfl,
      deeds.releaseNode _ _, deeds.takeMutations w (empty w rfl)⟩
  | node actor => exact ⟨deeds.gripping self, deeds.write⟩
  | nodeList list => exact fun w found => deeds.walking (ref ⟨rfl, w, found, rfl⟩)
  | console c => exact console c rfl
  | object actor => exact deeds.gripping _
  | network n => exact deeds.gripping self
  | thread actor => exact ⟨fun name _ => deeds.release name, deeds.handOut self⟩
  | trace host => exact tracer host rfl
  | _ => trivial

end Deeds

/-! ### Tabs -/

structure Deeds.Tabbed (C : ∀ {γ : Type}, Act γ → Prop) : Prop extends Deeds C where
  registerTab : ∀ id page, C (Tabs.register id page)
  root : ∀ f, C (Tabs.updateRoot f)

namespace Deeds.Tabbed

variable {C : ∀ {γ : Type}, Act γ → Prop} (deeds : Deeds.Tabbed C)

include deeds

theorem addTab (tab : TabId) (id : PageId) : C (Tabs.add tab id) := by
  refine deeds.law.bind deeds.read fun s => ?_
  split
  · exact deeds.law.pure _
  · refine deeds.law.bind (deeds.registerTab _ _) fun _ => deeds.law.bind (deeds.root _) fun _ => ?_
    split
    · exact deeds.release _
    · exact deeds.law.pure _

theorem removeTab (tab : TabId) : C (Tabs.remove tab) := by
  refine deeds.law.bind deeds.read fun s => deeds.law.bind (deeds.root _) fun _ => ?_
  split
  · exact deeds.release _
  · exact deeds.law.pure _

end Deeds.Tabbed

/-! ### Events -/

/-- An unsolicited packet: who sends it and what it tells of, with members of other keys. -/
def Event.packet (sender type : String) (members : List (String × Json)) : Json :=
  .object ([("from", .str sender), ("type", .str type)] ++ members)

/-- Keys of an event are never those that say who sent it, what it is or which request it answers. -/
def Event.Key (key : String) : Prop := key ≠ "from" ∧ key ≠ "type" ∧ key ≠ "requestId"

instance (key : String) : Decidable (Event.Key key) := inferInstanceAs (Decidable (_ ∧ _))

def Event.news : String := "newMutations"

def Event.Plain : Event → Prop
  | .changes _ _ | .frameLoad _ _ | .documentUnload _ _ => False
  | _ => True

def Event.Fixed : Event → Prop
  | .tabAdded _ _ | .tabClosed _ => False
  | _ => True

def Event.Unrequested : Event → Prop
  | .network _ _ _ => False
  | _ => True

/-- A law of all that a connection does about events: of what is no walker's concern, and of what each walker does. -/
theorem Serve.follow_law {C : ∀ {γ : Type}, Act γ → Prop} (law : Act.Law C) {s : Scene} {event : Event}
    (plain : event.Plain → C (follow s event)) (walkers : ∀ tab, C (walkers s tab))
    (changes : ∀ walker changes, C (Walker.onChanges walker changes))
    (frameLoad : ∀ walker frame, C (Walker.onFrameLoad walker frame))
    (documentUnload : ∀ walker document, C (Walker.onDocumentUnload walker document)) : C (follow s event) := by
  cases event with
  | changes walker list => exact changes walker list
  | frameLoad tab frame => exact law.bind (walkers tab) fun _ => law.forM_mem fun walker _ => frameLoad walker frame
  | documentUnload tab document =>
    exact law.bind (walkers tab) fun _ => law.forM_mem fun walker _ => documentUnload walker document
  | _ => exact plain trivial

def Event.consoleTypes : List String := ["consoleAPICall", "pageError", "fileActivity", "networkEvent"]

/-- The types of all that is told of a site but its frames. -/
def Event.types : List String := news :: "networkEventUpdate" :: consoleTypes

theorem Event.ne_news {type : String} (listed : type ∈ consoleTypes) : type ≠ news := by
  rintro rfl
  exact absurd listed (by decide)

structure Deeds.Telling (C : ∀ {γ : Type}, Act γ → Prop) : Prop extends Deeds C where
  event : ∀ console {type members}, type ∈ Event.consoleTypes → (∀ m ∈ members, Event.Key m.1) →
    C (Act.event (Event.packet console type members))

namespace Deeds.Telling

variable {C : ∀ {γ : Type}, Act γ → Prop} (deeds : Deeds.Telling C)

include deeds

theorem messageForm (console : String) (m : ConsoleMessage) : C (Console.messageForm console m) :=
  deeds.law.bind (deeds.law.mapM (deeds.gripping console).owned _) fun _ => deeds.law.pure _

theorem follow (s : Scene) {event : Event} (plain : event.Plain) (fixed : event.Fixed)
    (unrequested : event.Unrequested) : C (Serve.follow s event) := by
  unfold Serve.follow
  cases event with
  | changes walker changes => exact plain.elim
  | frameLoad tab frame => exact plain.elim
  | documentUnload tab document => exact plain.elim
  | tabAdded tab page => exact fixed.elim
  | tabClosed tab => exact fixed.elim
  | consoleApi tab message =>
    dsimp only
    split
    · unfold Console.onMessage
      split
      · refine deeds.law.bind (deeds.messageForm _ message) fun form => ?_
        exact deeds.event _ (by decide) (by simp [Event.Key])
      · exact deeds.law.pure _
    · exact deeds.law.pure _
  | pageError tab error =>
    dsimp only
    split
    · unfold Console.onPageError
      split
      · exact deeds.event _ (by decide) (by simp [Event.Key])
      · exact deeds.law.pure _
    · exact deeds.law.pure _
  | fileActivity tab uri =>
    dsimp only
    split
    · unfold Console.onFileActivity
      split
      · exact deeds.event _ (by decide) (by simp [Event.Key])
      · exact deeds.law.pure _
    · exact deeds.law.pure _
  | network tab request event => exact unrequested.elim

end Deeds.Telling

/-- Deeds by which the requests of pages are followed, too. -/
structure Deeds.Monitoring (C : ∀ {γ : Type}, Act γ → Prop) : Prop extends Deeds.Telling C where
  request : ∀ console n, C (Act.register "netEvent" console (.network n))
  enlist : ∀ console id name, C (Act.updateConsole console fun c => { c with requests := c.requests.insert id name })
  /-- A request that is reported on is found first. -/
  onUpdate : ∀ console c id event, C (Network.onUpdate console c id event)

namespace Deeds.Monitoring

variable {C : ∀ {γ : Type}, Act γ → Prop} (deeds : Deeds.Monitoring C)

include deeds

theorem onStart (console : String) (c : ConsoleActor) (id : String) (request : HttpRequest) :
    C (Network.onStart console c id request) := by
  refine deeds.law.bind (deeds.request _ _) fun _ => deeds.law.bind (deeds.enlist _ _ _) fun _ => ?_
  have told (form : Json) : C (Act.event (Event.packet console "networkEvent" [("eventActor", form)])) :=
    deeds.event console (by decide) (by simp [Event.Key])
  split
  · exact deeds.law.bind (deeds.release _) fun _ => told _
  · exact told _

theorem onNetworkEvent (console : String) (c : ConsoleActor) (id : String) (event : NetworkEvent) :
    C (Network.onEvent console c id event) := by
  unfold Network.onEvent
  split
  · split
    · exact deeds.onStart _ _ _ _
    · exact deeds.onUpdate _ _ _ _
  · exact deeds.law.pure _

theorem follow (s : Scene) {event : Event} (plain : event.Plain) (fixed : event.Fixed) : C (Serve.follow s event) := by
  cases event with
  | network tab request event =>
    dsimp only [Serve.follow]
    split
    · exact deeds.onNetworkEvent _ _ _ _
    · exact deeds.law.pure _
  | _ => exact deeds.toTelling.follow s plain fixed trivial

end Deeds.Monitoring

structure Deeds.Whole (C : ∀ {γ : Type}, Act γ → Prop) : Prop extends Deeds.Monitoring C, Deeds.Tabbed C

theorem Deeds.Whole.follow {C : ∀ {γ : Type}, Act γ → Prop} (deeds : Deeds.Whole C) (s : Scene) {event : Event}
    (plain : event.Plain) : C (Serve.follow s event) := by
  cases event with
  | tabAdded tab page => exact deeds.addTab tab page
  | tabClosed tab => exact deeds.removeTab tab
  | _ => exact deeds.toMonitoring.follow s plain trivial

end RemoteInspector
