import RemoteInspector.Proofs.Serve.Deeds
/-!
The primitive steps behind the deeds, for a law that does not look at sites.
-/
namespace RemoteInspector

/-- Steps that touch no queue, trace nothing and write nothing. -/
structure Tending.Plain (C : ∀ {γ : Type}, Act γ → Prop) : Prop where
  law : Act.Law C
  read : C (get : Act Scene)
  site : ∀ f, C (Act.site f)
  call : ∀ site owner ref receiver, C ((Grip.gripper site owner).call ref receiver)
  name : ∀ kind, C (Act.newName kind)
  register : ∀ {kind} owner actor, kind ∈ Registry.kinds → C (Act.register kind owner actor)
  registerAs : ∀ name owner {actor : Actor}, actor.queue? = none → C (Act.registerAs name owner actor)
  scripts : ∀ f : Table ObjectId String → Table ObjectId String,
    C (modify (·.setRegistry fun r => { r with scripts := f r.scripts }))
  update : ∀ name {f : Actor → Actor}, (∀ a, (f a).queue? = a.queue?) → C (Act.update name f)
  release : ∀ name, C (Act.release name)

structure Tending (C : ∀ {γ : Type}, Act γ → Prop) : Prop extends Tending.Plain C where
  tracing : ∀ tracer f, C (modify (·.setTracing tracer f))
  detach : ∀ tracer, C (modify (·.detach tracer))

namespace Tending.Plain

variable {C : ∀ {γ : Type}, Act γ → Prop} (steps : Tending.Plain C)

include steps

theorem updateWalker (name : String) {f : WalkerActor → WalkerActor} (kept : ∀ w, (f w).queue = w.queue) :
    C (Act.updateWalker name f) := by
  refine steps.update name fun a => ?_
  cases a with
  | walker w => exact congrArg some (kept w)
  | _ => rfl

theorem updateConsole (name : String) (f : ConsoleActor → ConsoleActor) : C (Act.updateConsole name f) := by
  refine steps.update name fun a => ?_
  cases a <;> rfl

theorem registerTab (id : PageId) (page : Page) : C (Tabs.register id page) :=
  steps.law.bind (steps.name _) fun _ => steps.law.bind (steps.register _ _ (by decide)) fun _ =>
    steps.law.bind (steps.register _ _ (by decide)) fun _ =>
      steps.law.bind (steps.register _ _ (by decide)) fun _ =>
        steps.law.bind (steps.register _ _ (by decide)) fun _ =>
          steps.law.bind (steps.registerAs _ _ rfl) fun _ => steps.law.pure _

theorem ref (walker host : String) (node : NodeId) : C (Walker.ref walker host node) :=
  Walker.ref_law steps.law steps.read steps.site (fun _ => steps.register _ _ (by decide))
    fun _ => steps.updateWalker walker fun _ => rfl

theorem walking (walker host : String) : Walking.Steps C walker host where
  law := steps.law
  read := steps.read
  ref := steps.ref walker host
  form := Walker.form?_law steps.law steps.read steps.ref

theorem deeds : Deeds C where
  law := steps.law
  read := steps.read
  call := steps.call
  register owner actor listed _ _ _ := steps.register owner actor listed
  object _ _ := Grip.actorOf_law steps.law steps.read (steps.register _ _ (by decide)) steps.scripts
  update name _ kept := steps.update name fun a => (kept a).queue
  registerWalker _ host :=
    steps.law.bind steps.read fun _ => steps.law.bind (steps.register _ _ (by decide)) fun walker =>
      steps.law.bind (steps.ref _ _ _) fun _ =>
        steps.law.bind ((steps.walking walker host).optionalForm _) fun _ => steps.law.pure _
  form := Walker.form?_law steps.law steps.read steps.ref
  orphans walker := steps.updateWalker walker fun _ => rfl
  release := steps.release
  write _ _ _ _ := steps.site _
  clear _ := steps.site _

theorem tabbed : Deeds.Tabbed C where
  toDeeds := steps.deeds
  registerTab := steps.registerTab
  root _ := by
    refine steps.update _ fun a => ?_
    cases a <;> rfl

theorem releaseNode (walker host name : String) : C (Walker.releaseNode walker host name) :=
  steps.deeds.releaseNode walker host name

end Tending.Plain

namespace Tending

variable {C : ∀ {γ : Type}, Act γ → Prop} (steps : Tending C)

include steps

theorem mono {D : ∀ {γ : Type}, Act γ → Prop} (law : Act.Law D)
    (imp : ∀ {γ : Type} {act : Act γ}, C act → D act) : Tending D where
  law := law
  read := imp steps.read
  site f := imp (steps.site f)
  call site owner ref receiver := imp (steps.call site owner ref receiver)
  name kind := imp (steps.name kind)
  register owner actor listed := imp (steps.register owner actor listed)
  registerAs name owner _ plain := imp (steps.registerAs name owner plain)
  scripts f := imp (steps.scripts f)
  update name _ kept := imp (steps.update name kept)
  release name := imp (steps.release name)
  tracing tracer f := imp (steps.tracing tracer f)
  detach tracer := imp (steps.detach tracer)

theorem handler (s : Scene) (self : String) (actor : Actor)
    (empty : ∀ w, actor = .walker w → C (Act.updateWalker self fun w => { w with queue := [] })) :
    actor.Steps C s self := by
  refine steps.deeds.handler s self actor (fun _ => steps.ref _ _) empty (fun c _ => ?_) fun _ _ => ?_
  · exact .of_site (steps.deeds.gripping self) steps.site (fun _ => steps.updateConsole self _) c
  · exact .of_site steps.law steps.read steps.site (steps.tracing self) (steps.detach self)

end Tending

/-! ### Events -/

/-- Steps that may write events besides, but for the announcements of walkers. -/
structure Following (C : ∀ {γ : Type}, Act γ → Prop) : Prop extends Tending C where
  event : ∀ sender {type members}, type ≠ Event.news → (∀ m ∈ members, Event.Key m.1) →
    C (Act.event (Event.packet sender type members))
  /-- A request that is reported on is found first. -/
  onUpdate : ∀ console c id event, C (Network.onUpdate console c id event)

namespace Tracer

theorem key_text (type : TraceType) : Event.Key type.text := by
  cases type <;> decide

theorem keys_detail (t : Tracing) (type : TraceType) (member : Option Json) :
    ∀ m ∈ detail t type member, Event.Key m.1 := by
  intro m listed
  unfold detail at listed
  split at listed
  · obtain ⟨j, -, rfl⟩ := Option.map_eq_some_iff.mp (Option.mem_toList.mp listed)
    exact key_text type
  · cases listed

theorem keys_entered (site : Site) (t : Tracing) (f : LiveFrame) : ∀ m ∈ (entered site t f).2, Event.Key m.1 := by
  intro m listed
  simp only [entered, List.mem_append] at listed
  rcases listed with (((named | called) | timed) | parameters) | arguments
  · exact keys_detail _ _ _ m named
  · exact keys_detail _ _ _ m called
  · exact keys_detail _ _ _ m timed
  · exact keys_detail _ _ _ m parameters
  · unfold pooledArguments at arguments
    split at arguments
    · split at arguments
      · cases List.mem_singleton.mp arguments
        exact show Event.Key "arguments" by decide
      · cases arguments
    · cases arguments

theorem keys_exited (site : Site) (t : Tracing) (completion : Completion Value) :
    ∀ m ∈ (exited site t completion).2, Event.Key m.1 := by
  intro m listed
  unfold exited at listed
  dsimp only at listed
  split at listed
  · split at listed
    · rcases List.mem_append.mp listed with timed | told
      · exact keys_detail _ _ _ m timed
      · cases List.mem_singleton.mp told
        exact key_text _
    · exact keys_detail _ _ _ m listed
  · exact keys_detail _ _ _ m listed

theorem keys_numbered {members : List (String × Json)} (keys : ∀ m ∈ members, Event.Key m.1) (number : Nat) :
    ∀ m ∈ ("sequence", Json.nat number) :: members, Event.Key m.1 := by
  intro m member
  rcases List.mem_cons.mp member with rfl | member
  · exact show Event.Key "sequence" by decide
  · exact keys m member

/-- A tracer reports a frame by three steps: it takes a number, finds out the details, and writes. -/
theorem report_law {C : ∀ {γ : Type}, Act γ → Prop} (law : Act.Law C) {tracer type : String}
    {details : Site → Tracing → Site × List (String × Json)} (read : C get)
    (claim : C (modify (·.setTracing tracer fun t => { t with sequence := t.sequence + 1 })))
    (site : ∀ f, C (Act.site f)) (told : ∀ site (t : Tracing), C (Act.event (Event.packet tracer type
      (("sequence", .nat t.sequence) :: (details site t).2)))) : C (report tracer type details) := by
  have claimed : C (Tracer.claim tracer) := law.bind read fun _ => law.bind claim fun _ => law.pure _
  exact law.bind claimed fun t => law.bind read fun s => law.bind (site _) fun _ => told s.site t

theorem after_report (s : Scene) (self type : String) (details : Site → Tracing → Site × List (String × Json)) :
    (report self type details).after s =
      ((s.setTracing self fun t => { t with sequence := t.sequence + 1 }).setSite
        fun _ => (details s.site (s.tracing self)).1).write (Event.packet self type
          (("sequence", .nat (s.tracing self).sequence) :: (details s.site (s.tracing self)).2)) := rfl

end Tracer

namespace Following

variable {C : ∀ {γ : Type}, Act γ → Prop} (steps : Following C)

include steps

theorem whole : Deeds.Whole C :=
  { steps.tabbed with
    event := fun console _ _ listed keys => steps.event console (Event.ne_news listed) keys
    request := fun console _ => steps.register console _ (by decide)
    enlist := fun console _ _ => steps.updateConsole console _
    onUpdate := steps.onUpdate }

theorem walkers (s : Scene) (tab : TabId) : C (Serve.walkers s tab) := steps.deeds.walkers s tab

theorem follow (s : Scene) {event : Event} (plain : event.Plain) : C (Serve.follow s event) :=
  steps.whole.follow s plain

theorem report (tracer : String) {type : String} {details : Site → Tracing → Site × List (String × Json)}
    (other : type ≠ Event.news) (keys : ∀ site t, ∀ m ∈ (details site t).2, Event.Key m.1) :
    C (Tracer.report tracer type details) :=
  Tracer.report_law steps.law steps.read (steps.tracing _ _) steps.site fun site t =>
    steps.event tracer other (Tracer.keys_numbered (keys site t) _)

theorem onEnter (tracer : String) (frame : LiveFrame) : C (Tracer.onEnter tracer frame) :=
  steps.report tracer (by decide) fun site t => Tracer.keys_entered site t frame

theorem onPop (tracer : String) (completion : Completion Value) : C (Tracer.onPop tracer completion) :=
  steps.report tracer (by decide) fun site t => Tracer.keys_exited site t completion

end Following

end RemoteInspector
