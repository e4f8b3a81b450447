import RemoteInspector.Proofs.Registry.Follows
import RemoteInspector.Proofs.Serve.Silence
import RemoteInspector.Proofs.Table
/-!
Every step of a connection keeps its registry in order.
-/
namespace RemoteInspector

open Registry (Above Follows Named Stable Valid)

/-- A step that keeps the registry in order, as long as the names last and under a condition on the
registry before it. -/
structure Scene.Orderly (k : Nat) (P : Registry → Prop) (s t : Scene) : Prop where
  id : t.conn.id = s.conn.id
  later : s.conn.registry.next ≤ t.conn.registry.next
  follows : t.conn.registry.next ≤ UInt32.size → s.conn.registry.Valid s.conn.id → P s.conn.registry →
    Follows s.conn.id k s.conn.registry t.conn.registry

namespace Scene.Orderly

variable {name : String}

variable {k : Nat} {P : Registry → Prop} {s t u : Scene}

/-- A step that does not touch the registry. -/
theorem same (id : t.conn.id = s.conn.id) (registry : t.conn.registry = s.conn.registry) : Orderly k P s t :=
  ⟨id, Nat.le_of_eq (congrArg _ registry.symm), fun _ valid _ => by
    rw [registry]
    exact .refl valid⟩

theorem refl (s : Scene) : Orderly k P s s := same rfl rfl

theorem trans (stable : Stable k P) (first : Orderly k P s t) (next : Orderly k P t u) : Orderly k P s u where
  id := next.id.trans first.id
  later := Nat.le_trans first.later next.later
  follows few valid holds := by
    have early := first.follows (Nat.le_trans next.later few) valid holds
    have late := next.follows few (first.id.symm ▸ early.valid) (stable _ _ early.high holds)
    exact early.trans (first.id ▸ late) first.later next.later

theorem valid (step : Orderly k P s t) (few : t.Few) (valid : s.Valid) (holds : P s.conn.registry) : t.Valid :=
  show t.conn.registry.Valid t.conn.id from step.id ▸ (step.follows few valid holds).valid

theorem weaken {j : Nat} {Q : Registry → Prop} (step : Orderly k P s t) (le : j ≤ k)
    (holds : s.Valid → Q s.conn.registry → P s.conn.registry) : Orderly j Q s t where
  id := step.id
  later := step.later
  follows few valid given := (step.follows few valid (holds valid given)).mono le

theorem update {f : Actor → Actor} (alike : ∀ e ∈ s.conn.registry.entries, e.name = name → e.actor.Alike (f e.actor)) :
    Orderly k P s (s.update name f) where
  id := rfl
  later := Nat.le_refl _
  follows _ valid _ := .update (valid.update_alike alike) fun e member same => (alike e member same).rank

theorem remember (added : List String) (low : Nat) {f : Actor → Actor} (rank : ∀ a : Actor, (f a).rank = a.rank)
    (object : ∀ a : Actor, (f a).object? = a.object?)
    (mentions : ∀ a : Actor, ∀ n ∈ (f a).mentions, n ∈ a.mentions ∨ (n ∈ added ∧ a.rank < low))
    (there : ∀ n ∈ added, Named s.conn.id 0 s.conn.registry.next n ∧ s.conn.registry.Has n low) :
    Orderly k P s (s.update name f) where
  id := rfl
  later := Nat.le_refl _
  follows _ valid _ := by
    refine .update (valid.update (fun e _ _ => rank _) (fun e _ _ => object _) ?_) fun e _ _ => rank _
    intro e member _ n mentioned
    rcases mentions e.actor n mentioned with old | ⟨new, below⟩
    · exact valid.mentions e member n old
    · obtain ⟨named, has⟩ := there n new
      exact ⟨named, fun rank' has' => valid.has_unique has' has ▸ below⟩

/-- Releasing an actor that is not above rank `k`. -/
theorem release (low : ∀ r, P r → ¬ r.Above k name) : Orderly k P s (s.release name) where
  id := (Scene.Silent.release s name).id
  later := Nat.le_of_eq (Scene.releaseAllOf_pruned s _).next.symm
  follows _ valid holds := by
    have pruned := Scene.release_pruned valid name
    refine ⟨Scene.release_valid valid name, fun _ member => .inl (pruned.names.subset member), ?_⟩
    intro other rank above
    rw [pruned.has]
    refine and_iff_left_of_imp fun has under => low _ holds ?_
    obtain ⟨top, le, has⟩ := valid.above_of_under under has
    exact ⟨top, Nat.lt_of_le_of_lt le above, has⟩

end Scene.Orderly

namespace Act

variable {k : Nat} {P : Registry → Prop}

abbrev Orderly (k : Nat) (P : Registry → Prop) {γ : Type} (act : Act γ) : Prop :=
  Keeps (fun _ => True) (Scene.Orderly k P) act

theorem orderly_law (stable : Stable k P) : Law (Orderly k P) :=
  keeps_law (fun s _ => .refl s) (fun first next => first.trans stable next) (fun _ _ => trivial)

namespace Orderly

variable {name owner : String}

theorem weaken {γ : Type} {act : Act γ} {j : Nat} {Q : Registry → Prop} (step : Orderly k P act)
    (le : j ≤ k) (holds : ∀ r, Q r → P r) : Orderly j Q act :=
  fun s _ => (step s trivial).weaken le fun _ => holds _

theorem get : Orderly k P (get : Act Scene) := fun s _ => .refl s

theorem elsewhere {f : Scene → Scene} (id : ∀ s, (f s).conn.id = s.conn.id)
    (registry : ∀ s, (f s).conn.registry = s.conn.registry) : Orderly k P (modify f) :=
  fun s _ => .same (id s) (registry s)

theorem site (f : Site → Site) : Orderly k P (site f) := elsewhere (fun _ => rfl) fun _ => rfl

theorem event (packet : Json) : Orderly k P (event packet) := by
  refine elsewhere (fun s => ?_) fun s => ?_ <;> unfold Scene.write <;> split <;> rfl

theorem update {f : Actor → Actor} (alike : ∀ a : Actor, a.Alike (f a)) : Orderly k P (update name f) :=
  fun _ _ => Scene.Orderly.update fun e _ _ => alike e.actor

theorem updateWalker (name : String) (f : WalkerActor → WalkerActor) : Orderly k P (updateWalker name f) := by
  refine update fun a => ?_
  cases a <;> exact ⟨rfl, rfl, List.Subset.refl _⟩

theorem updateConsole {f : ConsoleActor → ConsoleActor} (forgets : ∀ c, (f c).requests.values ⊆ c.requests.values) :
    Orderly k P (updateConsole name f) := by
  refine update fun a => ?_
  cases a with
  | console c => exact ⟨rfl, rfl, forgets c⟩
  | _ => exact .refl _

theorem release (low : ∀ r, P r → ¬ Above r k name) : Orderly k P (release name) :=
  fun _ _ => Scene.Orderly.release low

/-- Registering an actor of rank `k` or more under an owner that stands above it. -/
theorem register {kind : String} {actor : Actor} (listed : kind ∈ Registry.kinds) (low : k ≤ actor.rank)
    (owned : ∀ r, P r → Above r actor.rank owner) (plain : actor.object? = none) (mindless : actor.mentions = []) :
    Orderly k P (register kind owner actor) := by
  refine fun s _ => ⟨rfl, Nat.le_succ _, fun few valid holds => ?_⟩
  obtain ⟨rank, above, has⟩ := owned _ holds
  refine Follows.extend valid (Nat.le_succ _) few ?_ ?_ fun _ => .inl
  · refine ⟨List.nodup_singleton _, ?_, ?_, ?_, ?_⟩
    · rintro e (_ | ⟨_, ⟨⟩⟩)
      exact Registry.newName_named listed _ _
    · rintro e (_ | ⟨_, ⟨⟩⟩)
      exact ⟨owner, rank, rfl, above, .inl has⟩
    · rintro e (_ | ⟨_, ⟨⟩⟩) other found
      rw [plain] at found
      cases found
    · rintro e (_ | ⟨_, ⟨⟩⟩)
      exact mindless
  · rintro e (_ | ⟨_, ⟨⟩⟩)
    exact low

theorem actorOf (low : k ≤ 5) (owned : ∀ r, P r → Above r 5 owner) (ref : ObjectRef) :
    Orderly k P (Grip.actorOf owner ref) := by
  refine keeps_read fun s _ => ?_
  dsimp only
  cases (s.conn.registry.scripts.get? ref.id).filter s.conn.registry.contains with
  | some name => exact .refl s
  | none =>
    refine ⟨rfl, Nat.le_succ _, fun few valid holds => ?_⟩
    obtain ⟨rank, above, has⟩ := owned _ holds
    refine Follows.extend valid (Nat.le_succ _) few ?_ ?_ fun p member => ?_
    · refine ⟨List.nodup_singleton _, ?_, ?_, ?_, ?_⟩
      · rintro e (_ | ⟨_, ⟨⟩⟩)
        exact Registry.newName_named (by decide) _ _
      · rintro e (_ | ⟨_, ⟨⟩⟩)
        exact ⟨owner, rank, rfl, above, .inl has⟩
      · rintro e (_ | ⟨_, ⟨⟩⟩) actor found
        cases found
        rfl
      · rintro e (_ | ⟨_, ⟨⟩⟩)
        rfl
    · rintro e (_ | ⟨_, ⟨⟩⟩)
      exact low
    · refine (Table.mem_insert member).imp_right ?_
      rintro rfl
      exact ⟨_, List.mem_singleton_self _, rfl, _, rfl, rfl⟩

theorem gripping (stable : Stable k P) (low : k ≤ 5) (owned : ∀ r, P r → Above r 5 owner) :
    Gripping (Orderly k P) owner where
  law := orderly_law stable
  read := get
  call site ref receiver s _ := .same rfl rfl
  actor := actorOf low owned
  text text :=
    (orderly_law stable).bind get fun _ =>
      (orderly_law stable).bind (register (by decide) low owned rfl rfl) fun _ =>
        (orderly_law stable).pure _

theorem ref {walker : String} (stable : Stable k P) (low : k ≤ 4) (owned : ∀ r, P r → Above r 4 walker)
    (host : String) (node : NodeId) : Orderly k P (Walker.ref walker host node) :=
  Walker.ref_law (orderly_law stable) get site
    (fun _ => register (by decide) low owned rfl rfl) fun _ => updateWalker walker _

theorem form? (low : k ≤ 4) (name : String) : Orderly k P (Walker.form? name) := by
  refine keeps_read fun s _ => ?_
  cases s.node? name with
  | none => exact .refl s
  | some actor =>
    dsimp only
    cases live : s.walker? actor.walker with
    | none => exact .refl s
    | some w =>
      cases Walk.visibleParent? (s.site.dom actor.host) actor.node with
      | none => exact .refl s
      | some parent =>
        have step := ref (Registry.stable_above 4 actor.walker) (Nat.le_refl 4) (fun _ => id)
          actor.host parent s trivial
        exact step.weaken low fun _ _ =>
          ⟨3, by decide, Registry.has_of_find? (Scene.walker?_eq_some.mp live)⟩

theorem walking {walker : String} (stable : Stable k P) (low : k ≤ 4)
    (owned : ∀ r, P r → Above r 4 walker) (host : String) : Walking.Steps (Orderly k P) walker host where
  law := orderly_law stable
  read := get
  ref := ref stable low owned host
  form := form? low

theorem releaseBelow (walker host : String) (fuel : Nat) (name : String) :
    Orderly 4 (fun _ => True) (Walker.releaseBelow walker host fuel name) := by
  induction fuel generalizing name with
  | zero => exact fun s _ => .refl s
  | succ fuel ih =>
    refine keeps_read fun s _ => ?_
    cases live : s.node? name with
    | none => exact .refl s
    | some actor =>
      have law := orderly_law (Registry.stable_not_above 4 name)
      refine ((?_ : Orderly 4 (fun r => ¬ Above r 4 name) _) s trivial).weaken (Nat.le_refl 4) ?_
      · refine law.bind (law.forM_mem fun child _ => law.bind get fun t => ?_) fun _ =>
          release fun _ => id
        split
        · exact (ih _).weaken (Nat.le_refl 4) fun _ _ => trivial
        · exact law.pure _
      · intro valid _
        exact valid.not_above (Registry.has_of_find? (Scene.node?_eq_some.mp live)) (Nat.le_refl 4)

theorem releaseNode (low : k ≤ 4) (walker host name : String) : Orderly k P (Walker.releaseNode walker host name) :=
  keeps_read fun s _ => (releaseBelow walker host _ name s trivial).weaken low fun _ _ => trivial

theorem takeMutations (stable : Stable k P) (low : k ≤ 4) (walker : String) (w : WalkerActor)
    (cleanup : Bool) : Orderly k P (Walker.takeMutations walker w cleanup) := by
  have law := orderly_law stable
  refine law.bind (updateWalker _ _) fun _ => ?_
  split
  · exact law.bind (updateWalker _ _) fun _ =>
      law.bind (law.forM_mem fun name _ => releaseNode low _ _ name) fun _ => law.pure _
  · exact law.pure _

theorem registerWalker (stable : Stable 3 P) (owned : ∀ r, P r → Above r 3 owner) (host : String) :
    Orderly 3 P (Walker.register owner host) := by
  refine keeps_read fun s _ => ?_
  dsimp only
  rw [after_bind]
  have first : Scene.Orderly 3 P s
      ((Act.register "domwalker" owner (.walker { host, root := (s.site.dom host).root })).after s) :=
    register (by decide) (Nat.le_refl 3) owned rfl rfl s trivial
  refine first.trans stable (Scene.Orderly.weaken (k := 4)
    (P := fun r => Above r 4 (s.conn.registry.newName s.conn.id "domwalker")) ?_ (by decide) fun _ _ => ?_)
  · have law := orderly_law (Registry.stable_above 4 (s.conn.registry.newName s.conn.id "domwalker"))
    refine law.bind (ref (Registry.stable_above 4 _) (Nat.le_refl 4) (fun _ => id) host _) (fun name => ?_) _ trivial
    exact law.bind (law.bind (form? (Nat.le_refl 4) name) fun _ => law.pure _) fun _ => law.pure _
  · exact ⟨3, by decide, _, List.mem_append_right _ (List.mem_singleton_self _), rfl, rfl⟩

section

variable {self : String} (stable : Stable 3 P) (owned : ∀ r, P r → Above r 3 self) (frames : List FrameActor)

include stable owned frames

theorem frames_registered (s : Scene) :
    let act := frames.mapM fun f => do return (← Act.register "frame" self (.frame f), f)
    Scene.Orderly 3 P s (act.after s) ∧
      (∀ name rank, s.conn.registry.Has name rank → (act.after s).conn.registry.Has name rank) ∧
      ∀ shown ∈ act.result s, (act.after s).conn.registry.Has shown.1 3 ∧
        Named s.conn.id s.conn.registry.next (act.after s).conn.registry.next shown.1 := by
  induction frames generalizing s with
  | nil => exact ⟨.refl s, fun _ _ => id, fun _ member => nomatch member⟩
  | cons f rest ih =>
    dsimp only at ih ⊢
    rw [List.mapM_cons]
    have first : Scene.Orderly 3 P s ((Act.register "frame" self (.frame f)).after s) :=
      register (by decide) (Nat.le_refl 3) owned rfl rfl s trivial
    obtain ⟨later, stays, shown⟩ := ih ((Act.register "frame" self (.frame f)).after s)
    have kept (name : String) (rank : Nat) (has : s.conn.registry.Has name rank) :
        ((Act.register "frame" self (.frame f)).after s).conn.registry.Has name rank := by
      obtain ⟨e, member, same⟩ := has
      exact ⟨e, List.mem_append_left _ member, same⟩
    have new : ((Act.register "frame" self (.frame f)).after s).conn.registry.Has
        (s.conn.registry.newName s.conn.id "frame") 3 :=
      ⟨_, List.mem_append_right _ (List.mem_singleton_self _), rfl, rfl⟩
    refine ⟨first.trans stable later, fun name rank has => stays name rank (kept name rank has), ?_⟩
    intro entry member
    rcases List.mem_cons.mp member with rfl | member
    · exact ⟨stays _ _ new, (Registry.newName_named (by decide) _ _).widen (Nat.le_refl _) later.later⟩
    · obtain ⟨has, named⟩ := shown entry member
      exact ⟨has, named.widen (Nat.le_succ _) (Nat.le_refl _)⟩

theorem handOut : Orderly 3 P (Thread.handOut self frames) := by
  intro s _
  obtain ⟨step, _, shown⟩ := frames_registered stable owned frames s
  let act : Act (List (String × FrameActor)) :=
    frames.mapM fun f => do return (← Act.register "frame" self (.frame f), f)
  refine step.trans stable (.remember ((act.result s).map Prod.fst) 3 (fun a => ?_) (fun a => ?_)
    (fun a n mentioned => ?_) fun n new => ?_)
  · cases a <;> rfl
  · cases a <;> rfl
  · cases a with
    | thread t => exact .inr ⟨mentioned, Nat.lt_succ_self 2⟩
    | _ => exact .inl mentioned
  · obtain ⟨entry, member, rfl⟩ := List.mem_map.mp new
    obtain ⟨has, named⟩ := shown entry member
    exact ⟨step.id ▸ named.widen (Nat.zero_le _) (Nat.le_refl _), has⟩

end

end Orderly

end Act

end RemoteInspector
