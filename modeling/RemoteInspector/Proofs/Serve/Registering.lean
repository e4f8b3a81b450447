import RemoteInspector.Proofs.Serve.Turns
/-!
Relations that look at the registry alone: what comes, what leaves and what changes there.
-/
namespace RemoteInspector

open Registry (Entry Named)

def Registry.Entry.Housed (e : Entry) : Prop := ∀ n, e.actor = .node n → e.owner = some n.walker

namespace Actor

variable {a : Actor}

/-- The node actors that a walker has marked as out of its tree; nobody else has any. -/
def orphans : Actor → List String
  | .walker w => w.orphans
  | _ => []

/-- An actor that is what it was; a walker may have fewer orphans. -/
structure Abides (a b : Actor) : Prop where
  kind : b.kind = a.kind
  orphans : b.orphans ⊆ a.orphans

theorem Same.abides {b : Actor} (same : a.Same b) : a.Abides b := by
  refine ⟨same.kind, ?_⟩
  obtain ⟨tie, -, kind, -⟩ := same
  cases b with
  | walker w' =>
    cases a with
    | walker w =>
      simp only [tie?, Option.some.injEq, Tie.walker.injEq] at tie
      simp only [orphans, tie.2.2.2, List.Subset.refl]
    | _ => cases kind
  | _ => exact List.nil_subset _

def Unlinked (a : Actor) : Prop := ∀ link, a.link? = some link → link = .console []

theorem Unlinked.of_none (none : a.link? = none) : a.Unlinked := by
  intro link linked
  rw [none] at linked
  cases linked

theorem Fresh.orphans (fresh : a.Fresh) : a.orphans = [] := by
  cases a with
  | walker w => exact fresh.2
  | _ => rfl

end Actor

namespace Grip

def listed? (r : Registry) (id : ObjectId) : Option String := (r.scripts.get? id).filter r.contains

variable {s : Scene} {ref : ObjectRef}

theorem actorOf_listed (owner : String) {name : String} (listed : listed? s.conn.registry ref.id = some name) :
    (actorOf owner ref).result s = name ∧ (actorOf owner ref).after s = s := by
  unfold listed? at listed
  simp only [actorOf, Act.result_bind, Act.after_bind, Act.result_get, Act.after_get, listed, Act.result_pure,
    Act.after_pure, and_self]

theorem actorOf_unlisted (owner : String) (unlisted : listed? s.conn.registry ref.id = none) :
    let name := s.conn.registry.newName s.conn.id "obj"
    let t := (actorOf owner ref).after s
    (actorOf owner ref).result s = name ∧ t.conn.id = s.conn.id ∧ t.site = s.site ∧
      t.conn.registry = s.conn.registry.extend [⟨name, some owner, .object ⟨owner, ref⟩⟩]
        (s.conn.registry.scripts.insert ref.id name) (s.conn.registry.next + 1) := by
  unfold listed? at unlisted
  simp only [actorOf, Act.result_bind, Act.after_bind, Act.result_get, Act.after_get, unlisted, Act.result_pure,
    Act.after_pure, Act.after_modify]
  exact ⟨rfl, rfl, rfl, rfl⟩

end Grip

namespace Act

theorem id_register (s : Scene) (kind owner : String) (actor : Actor) :
    ((register kind owner actor).after s).conn.id = s.conn.id := rfl

theorem registry_register (s : Scene) (kind owner : String) (actor : Actor) :
    ((register kind owner actor).after s).conn.registry = s.conn.registry.extend
      [⟨s.conn.registry.newName s.conn.id kind, some owner, actor⟩] s.conn.registry.scripts
      (s.conn.registry.next + 1) := rfl

end Act

/-- A relation that holds where the registry stays the same, or has a new actor for an object. -/
structure Gripped (R : Scene → Scene → Prop) : Prop where
  trans : ∀ {s t u}, R s t → R t u → R s u
  same : ∀ {s t : Scene}, t.conn.id = s.conn.id → t.conn.registry = s.conn.registry → R s t
  object : ∀ {s t : Scene} {owner : String} {ref : ObjectRef}, let name := s.conn.registry.newName s.conn.id "obj"
    Grip.listed? s.conn.registry ref.id = none → t.conn.id = s.conn.id →
    t.conn.registry = s.conn.registry.extend [⟨name, some owner, .object ⟨owner, ref⟩⟩]
      (s.conn.registry.scripts.insert ref.id name) (s.conn.registry.next + 1) → R s t

/-- A relation that holds where actors come and leave, as long as nothing is done about the requests of pages. -/
structure Minding (R : Scene → Scene → Prop) : Prop extends Gripped R where
  update : ∀ (s : Scene) name {f : Actor → Actor},
    (∀ a, s.find? name = some a → a.Abides (f a) ∧ (f a).link? = a.link?) → R s (s.update name f)
  releaseOne : ∀ (s : Scene) name, R s (s.releaseOne name)
  extend : ∀ {s t : Scene} {added : List Entry} {next : Nat}, t.conn.id = s.conn.id →
    t.conn.registry = s.conn.registry.extend added s.conn.registry.scripts next → s.conn.registry.next ≤ next →
    (∀ e ∈ added, Named s.conn.id s.conn.registry.next next e.name ∧ e.actor.object? = none ∧ e.Housed ∧
      e.actor.orphans = [] ∧ e.actor.Unlinked) → R s t

namespace Minding

variable {R : Scene → Scene → Prop} (keeps : Minding R)

include keeps

theorem refl (s : Scene) : R s s := keeps.same rfl rfl

theorem law : Act.Law (Act.Keeps (fun _ => True) R) :=
  Act.keeps_law (fun s _ => keeps.refl s) keeps.trans fun _ _ => trivial

theorem get : Act.Keeps (fun _ => True) R (get : Act Scene) := fun s _ => keeps.refl s

theorem elsewhere {f : Scene → Scene} (id : ∀ s, (f s).conn.id = s.conn.id)
    (registry : ∀ s, (f s).conn.registry = s.conn.registry) : Act.Keeps (fun _ => True) R (modify f) :=
  fun s _ => keeps.same (id s) (registry s)

theorem site (f : Site → Site) : Act.Keeps (fun _ => True) R (Act.site f) :=
  keeps.elsewhere (fun _ => rfl) fun _ => rfl

theorem write (s : Scene) (packet : Json) : R s (s.write packet) := by
  unfold Scene.write
  split <;> exact keeps.same rfl rfl

theorem event (packet : Json) : Act.Keeps (fun _ => True) R (Act.event packet) := fun s _ => keeps.write s packet

theorem updateWalker (name : String) {f : WalkerActor → WalkerActor} (fewer : ∀ w, (f w).orphans ⊆ w.orphans) :
    Act.Keeps (fun _ => True) R (Act.updateWalker name f) := by
  refine fun s _ => keeps.update s name fun a _ => ?_
  cases a with
  | walker w => exact ⟨⟨rfl, fewer w⟩, rfl⟩
  | _ => exact ⟨⟨rfl, List.Subset.refl _⟩, rfl⟩

theorem updateConsole (name : String) {f : ConsoleActor → ConsoleActor} (kept : ∀ c, (f c).requests = c.requests) :
    Act.Keeps (fun _ => True) R (Act.updateConsole name f) := by
  refine fun s _ => keeps.update s name fun a _ => ?_
  cases a with
  | console c => exact ⟨⟨rfl, List.Subset.refl _⟩, congrArg (some <| Actor.Link.console ·) (kept c)⟩
  | _ => exact ⟨⟨rfl, List.Subset.refl _⟩, rfl⟩

theorem register {kind owner : String} {actor : Actor} (listed : kind ∈ Registry.kinds) (plain : actor.object? = none)
    (housed : ∀ n, actor = .node n → owner = n.walker) (bare : actor.orphans = []) (unlinked : actor.Unlinked) :
    Act.Keeps (fun _ => True) R (Act.register kind owner actor) := by
  intro s _
  refine keeps.extend (t := (Act.register kind owner actor).after s) (Act.id_register ..)
    (Act.registry_register ..) (Nat.le_succ _) fun e member => ?_
  cases List.mem_singleton.mp member
  exact ⟨Registry.newName_named listed _ _, plain, fun n made => congrArg some (housed n made), bare, unlinked⟩

theorem actorOf (owner : String) (ref : ObjectRef) : Act.Keeps (fun _ => True) R (Grip.actorOf owner ref) := by
  intro s _
  cases listed : Grip.listed? s.conn.registry ref.id with
  | some name =>
    rw [(Grip.actorOf_listed owner listed).2]
    exact keeps.refl s
  | none =>
    obtain ⟨_, id, _, registry⟩ := Grip.actorOf_unlisted owner listed
    exact keeps.object listed id registry

theorem release (s : Scene) (name : String) : R s (s.release name) :=
  Scene.release_rel keeps.refl keeps.trans keeps.releaseOne s name

/-! ### Acts -/

theorem ref (walker host : String) (node : NodeId) : Act.Keeps (fun _ => True) R (Walker.ref walker host node) := by
  refine Walker.ref_law keeps.law keeps.get keeps.site (fun observer => ?_) fun _ =>
    keeps.updateWalker walker fun _ => List.Subset.refl _
  refine keeps.register (by decide) rfl (fun n made => ?_) rfl (.of_none rfl)
  cases made
  rfl

theorem form (name : String) : Act.Keeps (fun _ => True) R (Walker.form? name) :=
  Walker.form?_law keeps.law keeps.get keeps.ref name

theorem deeds : Deeds (Act.Keeps (fun _ => True) R) where
  law := keeps.law
  read := keeps.get
  call _ _ _ _ _ _ := keeps.same rfl rfl
  register owner actor listed fresh plain unlinked := by
    refine keeps.register listed plain (fun n made => ?_) fresh.orphans (.of_none unlinked)
    subst made
    exact fresh.elim
  object := keeps.actorOf
  update name _ kept s _ := keeps.update s name fun a _ => ⟨(kept a).abides, (kept a).link⟩
  registerWalker owner host := by
    refine keeps.law.bind keeps.get fun s => keeps.law.bind (keeps.register (by decide) rfl nofun rfl (.of_none rfl))
      fun walker => keeps.law.bind (keeps.ref _ _ _) fun _ => ?_
    have steps : Walking.Steps (Act.Keeps (fun _ => True) R) walker host :=
      ⟨keeps.law, keeps.get, keeps.ref walker host, keeps.form⟩
    exact keeps.law.bind (steps.optionalForm _) fun _ => keeps.law.pure _
  form := keeps.form
  orphans walker := keeps.updateWalker walker fun _ => List.nil_subset _
  release name s _ := keeps.release s name
  write _ _ _ _ := keeps.site _
  clear _ := keeps.site _

theorem handler (s : Scene) (self : String) (actor : Actor) : actor.Steps (Act.Keeps (fun _ => True) R) s self := by
  refine keeps.deeds.handler s self actor (fun _ => keeps.ref _ _) (fun _ _ => keeps.updateWalker self fun _ => List.Subset.refl _)
    (fun c _ => ?_) fun _ _ => ?_
  · exact .of_site (keeps.deeds.gripping self) keeps.site (fun kept => keeps.updateConsole self kept) c
  · refine .of_site keeps.law keeps.get keeps.site (fun _ => keeps.elsewhere (fun _ => rfl) fun _ => rfl) ?_
    exact keeps.elsewhere (fun s => (Scene.Silent.detach s self).id) fun s => Scene.registry_detach s self

theorem report (tracer type : String) (details : Site → Tracing → Site × List (String × Json)) :
    Act.Keeps (fun _ => True) R (Tracer.report tracer type details) :=
  Tracer.report_law keeps.law keeps.get (keeps.elsewhere (fun _ => rfl) fun _ => rfl) keeps.site fun _ _ => keeps.event _

theorem registerTab (id : PageId) (page : Page) : Act.Keeps (fun _ => True) R (Tabs.register id page) := by
  refine fun s _ => keeps.extend rfl (Tabs.registry_register s id page) (Nat.le_add_right _ 5) fun e member => ⟨?_, ?_⟩
  · exact Tabs.added_named s id page e member
  · simp only [Tabs.added, List.mem_cons, List.not_mem_nil, or_false] at member
    rcases member with rfl | rfl | rfl | rfl | rfl
    · exact ⟨rfl, (fun _ none => by cases none), rfl, .of_none rfl⟩
    · exact ⟨rfl, (fun _ none => by cases none), rfl, .of_none rfl⟩
    · exact ⟨rfl, (fun _ none => by cases none), rfl, .of_none rfl⟩
    · exact ⟨rfl, (fun _ none => by cases none), rfl, fun _ linked => (Option.some.inj linked).symm⟩
    · exact ⟨rfl, (fun _ none => by cases none), rfl, .of_none rfl⟩

theorem steady : Steady R where
  refl := keeps.refl
  trans := keeps.trans
  deeds := keeps.deeds
  write := keeps.write
  standing s _ same := keeps.same (same s.conn).1 (same s.conn).2.1

theorem handle (s : Scene) (packet : Fields) : R s (Request.handle s packet).1 :=
  keeps.steady.handle s packet fun {self actor _ _ _} _ _ _ _ decided =>
    (Request.decide_answering keeps.law (keeps.handler s self actor) decided).law s trivial

theorem packet (s : Scene) (packet : Json) : R s (Serve.step s (.packet packet)) :=
  keeps.steady.packet s packet (keeps.handle s)

theorem attending (walkers : ∀ name f, Act.Keeps (fun _ => True) R (Act.updateWalker name f)) : Attending R := by
  refine { keeps.steady with queue := fun walker _ => walkers walker _, changes := fun walker changes => ?_ }
  exact Walker.onChanges_law keeps.law keeps.get
    (fun w _ => Walker.queue_law keeps.law w (walkers walker _) (keeps.event _)) changes fun _ => walkers walker _

end Minding

/-- A relation that holds where actors come and leave, and where they change in nothing but what is their own. -/
structure Abiding (R : Scene → Scene → Prop) : Prop extends Gripped R where
  update : ∀ (s : Scene) name {f : Actor → Actor}, (∀ a, s.find? name = some a → a.Abides (f a)) →
    R s (s.update name f)
  remove : ∀ (s : Scene) name, R s (s.setRegistry (·.remove name))
  extend : ∀ {s t : Scene} {added : List Entry} {next : Nat}, t.conn.id = s.conn.id →
    t.conn.registry = s.conn.registry.extend added s.conn.registry.scripts next → s.conn.registry.next ≤ next →
    (∀ e ∈ added, Named s.conn.id s.conn.registry.next next e.name ∧ e.actor.object? = none ∧ e.Housed ∧ e.actor.orphans = []) → R s t

namespace Abiding

variable {R : Scene → Scene → Prop} (keeps : Abiding R)

include keeps

theorem destroy (s : Scene) (name : String) (actor : Actor) : R s (s.destroy name actor) := by
  have forgets (s : Scene) (walker : String) (node : NodeId) : R s (s.update walker fun
      | .walker w => .walker (w.forget node name)
      | other => other) := by
    refine keeps.update s walker fun a _ => ?_
    cases a with
    | walker w => exact ⟨rfl, List.filter_sublist.subset⟩
    | _ => exact ⟨rfl, List.Subset.refl _⟩
  cases actor with
  | node actor =>
    simp only [Scene.destroy]
    split
    · exact keeps.trans (t := s.setSite _) (keeps.same rfl rfl) (forgets _ _ _)
    · exact forgets _ _ _
  | console actor =>
    simp only [Scene.destroy]
    split <;> exact keeps.same rfl rfl
  | network actor =>
    refine keeps.update s actor.console fun a _ => ?_
    cases a <;> exact ⟨rfl, List.Subset.refl _⟩
  | trace host => exact keeps.same (Scene.Silent.detach s name).id (Scene.registry_detach s name)
  | _ => exact keeps.same rfl rfl

theorem minding : Minding R where
  toGripped := keeps.toGripped
  update s name _ kept := keeps.update s name fun a live => (kept a live).1
  releaseOne s name := by
    unfold Scene.releaseOne
    split
    · exact keeps.trans (keeps.remove s name) (keeps.destroy _ name _)
    · exact keeps.same rfl rfl
  extend id registry later new := keeps.extend id registry later fun e member =>
    ⟨(new e member).1, (new e member).2.1, (new e member).2.2.1, (new e member).2.2.2.1⟩

theorem updateConsole (name : String) (f : ConsoleActor → ConsoleActor) :
    Act.Keeps (fun _ => True) R (Act.updateConsole name f) := by
  refine fun s _ => keeps.update s name fun a _ => ?_
  cases a <;> exact ⟨rfl, List.Subset.refl _⟩

theorem request (console : String) (n : NetworkActor) :
    Act.Keeps (fun _ => True) R (Act.register "netEvent" console (.network n)) := by
  intro s _
  refine keeps.extend (t := (Act.register "netEvent" console (.network n)).after s) (Act.id_register ..)
    (Act.registry_register ..) (Nat.le_succ _) fun e member => ?_
  cases List.mem_singleton.mp member
  exact ⟨Registry.newName_named (by decide) _ _, rfl, nofun, rfl⟩

theorem onUpdate (console : String) (c : ConsoleActor) (id : String) (event : NetworkEvent) :
    Act.Keeps (fun _ => True) R (Network.onUpdate console c id event) := by
  refine Act.keeps_read fun s _ => ?_
  dsimp only
  split
  · exact keeps.updateConsole console _ s trivial
  · rename_i name n found
    obtain ⟨x, _, found⟩ := Option.bind_eq_some_iff.mp found
    obtain ⟨_, network, same⟩ := Option.map_eq_some_iff.mp found
    cases same
    split
    · exact keeps.same rfl rfl
    · rename_i n' _ _ _
      refine keeps.trans (keeps.update s name (f := fun _ => .network n') fun a live => ?_) (keeps.minding.write _ _)
      rw [Scene.network?_eq_some.mp network] at live
      cases live
      exact ⟨rfl, List.Subset.refl _⟩

end Abiding

/-- A relation that holds for any change of an actor that stays what it is. -/
structure Registering (R : Scene → Scene → Prop) : Prop extends Gripped R where
  update : ∀ (s : Scene) name {f : Actor → Actor}, (∀ a, s.find? name = some a → (f a).kind = a.kind) →
    R s (s.update name f)
  remove : ∀ (s : Scene) name, R s (s.setRegistry (·.remove name))
  extend : ∀ {s t : Scene} {added : List Entry} {next : Nat}, t.conn.id = s.conn.id →
    t.conn.registry = s.conn.registry.extend added s.conn.registry.scripts next → s.conn.registry.next ≤ next →
    (∀ e ∈ added, Named s.conn.id s.conn.registry.next next e.name ∧ e.actor.object? = none ∧ e.Housed) → R s t

namespace Registering

variable {R : Scene → Scene → Prop} (keeps : Registering R)

include keeps

theorem abiding : Abiding R where
  toGripped := keeps.toGripped
  update s name _ kept := keeps.update s name fun a live => (kept a live).kind
  remove := keeps.remove
  extend id registry later new :=
    keeps.extend id registry later fun e member => ⟨(new e member).1, (new e member).2.1, (new e member).2.2.1⟩

theorem minding : Minding R := keeps.abiding.minding

theorem updateWalker (name : String) (f : WalkerActor → WalkerActor) :
    Act.Keeps (fun _ => True) R (Act.updateWalker name f) := by
  refine fun s _ => keeps.update s name fun a _ => ?_
  cases a <;> rfl

/-! ### Turns -/

theorem enduring : Enduring R where
  toAttending := keeps.minding.attending keeps.updateWalker
  request := keeps.abiding.request
  enlist console _ _ := keeps.abiding.updateConsole console _
  onUpdate := keeps.abiding.onUpdate
  onEnter tracer _ := keeps.minding.report tracer _ _
  onPop tracer _ := keeps.minding.report tracer _ _

theorem fixed (s : Scene) {input : Serve.Input} (fixed : input.Fixed) : R s (Serve.step s input) := by
  cases input with
  | packet packet => exact keeps.minding.packet s packet
  | _ => exact keeps.enduring.fixed s trivial fixed

end Registering

structure Registering.Tabbed (R : Scene → Scene → Prop) : Prop extends Registering R where
  root : ∀ s f, R s ((Tabs.updateRoot f).after s)

theorem Registering.Tabbed.lasting {R : Scene → Scene → Prop} (keeps : Registering.Tabbed R) : Lasting R :=
  { keeps.enduring with
    registerTab := keeps.minding.registerTab
    root := fun f s _ => keeps.root s f
    decide := fun {s self _ _ actor _} _ decided =>
      (Request.decide_answering keeps.minding.law (keeps.minding.handler s self actor) decided).law s trivial }

end RemoteInspector
