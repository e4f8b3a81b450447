import RemoteInspector.Proofs.Serve.Ownership
/-!
Requests and events keep the registry in order, and never lose the root while the connection is open.
-/
namespace RemoteInspector

open Registry (Above Follows Named Stable Valid)

variable {s : Scene} {self method : String} {packet : Fields} {act : Act Reply}

/-! ### Requests -/

theorem Scene.not_above_mentioned {name : String} {actor : Actor} (valid : s.Valid) (live : s.find? self = some actor)
    (mentioned : name ∈ actor.mentions) : ¬ s.conn.registry.Above (actor.rank + 1) name := by
  rintro ⟨rank, top, has⟩
  obtain ⟨e, member, _, rfl⟩ := Registry.entry_of_find? live
  exact absurd top (Nat.not_lt_of_le ((valid.mentions e member name mentioned).2 rank has))

/-- What the handler of a registered actor counts on follows from the order of the registry. -/
theorem Actor.steps_orderly {actor : Actor} (live : s.find? self = some actor) :
    ∃ k P, 3 ≤ k ∧ Stable k P ∧ (s.Valid → P s.conn.registry) ∧ actor.Steps (Act.Orderly k P) s self := by
  have has : s.conn.registry.Has self actor.rank := Registry.has_of_find? live
  cases actor with
  | inspector actor =>
    refine ⟨3, fun r => r.Above 3 self, by decide, Registry.stable_above 3 self,
      fun _ => ⟨2, by decide, has⟩, ?_, fun f => .update fun a => ?_⟩
    · exact .registerWalker (Registry.stable_above 3 self) (fun _ => id) _
    · cases a <;> exact ⟨rfl, rfl, List.Subset.refl _⟩
  | walker w =>
    refine ⟨4, fun r => r.Above 4 self, by decide, Registry.stable_above 4 self,
      fun _ => ⟨3, by decide, has⟩, ?_, ?_, ?_, ?_⟩
    · exact Act.Orderly.walking (Registry.stable_above 4 self) (Nat.le_refl 4) (fun _ => id) _
    · exact fun nodes => .register (by decide) (Nat.le_refl 4) (fun _ => id) rfl rfl
    · exact fun name => .releaseNode (Nat.le_refl 4) _ _ name
    · exact fun cleanup => .takeMutations (Registry.stable_above 4 self) (Nat.le_refl 4) _ _ cleanup
  | node actor =>
    exact ⟨5, fun r => r.Above 5 self, by decide, Registry.stable_above 5 self, fun _ => ⟨4, by decide, has⟩,
      Act.Orderly.gripping (Registry.stable_above 5 self) (Nat.le_refl 5) fun _ => id, fun _ _ _ _ => .site _⟩
  | nodeList list =>
    cases live_walker : s.walker? list.walker with
    | none =>
      exact ⟨3, fun _ => True, by decide, Registry.stable_true 3, fun _ => trivial,
        fun w found => by simp [live_walker] at found⟩
    | some w =>
      have has : s.conn.registry.Has list.walker 3 :=
        Registry.has_of_find? (Scene.walker?_eq_some.mp live_walker)
      exact ⟨4, fun r => r.Above 4 list.walker, by decide, Registry.stable_above 4 _,
        fun _ => ⟨3, by decide, has⟩, fun w _ =>
          Act.Orderly.walking (Registry.stable_above 4 _) (Nat.le_refl 4) (fun _ => id) _⟩
  | console c =>
    have gripping : Gripping (Act.Orderly 5 fun r => r.Above 5 self) self :=
      Act.Orderly.gripping (Registry.stable_above 5 self) (Nat.le_refl 5) fun _ => id
    refine ⟨5, fun r => r.Above 5 self, by decide, Registry.stable_above 5 self,
      fun _ => ⟨2, by decide, has⟩, .of_site gripping .site (fun same => ?_) c⟩
    exact .updateConsole fun c => by rw [same c]; exact List.Subset.refl _
  | object actor =>
    refine ⟨5, fun r => r.Above 5 actor.owner, by decide, Registry.stable_above 5 actor.owner,
      fun valid => ?_, Act.Orderly.gripping (Registry.stable_above 5 actor.owner) (Nat.le_refl 5) fun _ => id⟩
    obtain ⟨e, member, _, same⟩ := Registry.entry_of_find? live
    have owned := valid.objects e member actor (by rw [same]; rfl)
    obtain ⟨_, rank, above, has⟩ := valid.owned e member _ owned
    exact ⟨rank, by rw [same] at above; exact above, has⟩
  | network n =>
    exact ⟨5, fun r => r.Above 5 self, by decide, Registry.stable_above 5 self, fun _ => ⟨3, by decide, has⟩,
      Act.Orderly.gripping (Registry.stable_above 5 self) (Nat.le_refl 5) fun _ => id⟩
  | thread actor =>
    have stable : Stable 3 fun r => r.Above 3 self ∧ ∀ name ∈ actor.frames, ¬ r.Above 3 name :=
      (Registry.stable_above 3 self).and (.forall_mem (Registry.stable_not_above 3))
    refine ⟨3, _, by decide, stable, fun valid => ⟨⟨2, by decide, has⟩, ?_⟩, ?_, ?_⟩
    · exact fun _ => Scene.not_above_mentioned valid live
    · exact fun name member => .release fun _ holds => holds.2 name member
    · exact fun frames => .handOut stable (fun _ => And.left) frames
  | trace host =>
    refine ⟨3, fun _ => True, by decide, Registry.stable_true 3, fun _ => trivial,
      .of_site (Act.orderly_law (Registry.stable_true 3)) .get .site ?_ ?_⟩
    · exact fun f => .elsewhere (fun _ => rfl) fun _ => rfl
    · exact .elsewhere (fun s => (Scene.Silent.detach s self).id) fun s => Scene.registry_detach s self
  | _ => exact ⟨3, fun _ => True, by decide, Registry.stable_true 3, fun _ => trivial, trivial⟩

namespace Request

variable {actor : Actor}

theorem decide_orderly (live : s.find? self = some actor) (accepted : decide s self method packet actor = .ok act) :
    Scene.Orderly 3 (fun _ => True) s (act.after s) := by
  obtain ⟨k, P, low, stable, holds, steps⟩ := Actor.steps_orderly live
  have step := (decide_answering (Act.orderly_law stable) steps accepted).law s trivial
  exact step.weaken low fun valid _ => holds valid

theorem rank_of_release {m : Method} (listed : m ∈ actor.schema.methods) (releases : m.release = true) :
    3 ≤ actor.rank := by
  have none {schema : Schema} (listed : m ∈ schema.methods) (held : schema.methods.all (!·.release) = true) :
      3 ≤ actor.rank := by
    have held := List.all_eq_true.mp held m listed
    simp [releases] at held
  cases actor with
  | root | tab | inspector | console | thread | trace => exact none listed rfl
  | _ => exact Nat.le_add_left 3 _

theorem perform_orderly {m : Method} (live : s.find? self = some actor) (listed : m ∈ actor.schema.methods) :
    Scene.Orderly 3 (fun _ => True) s (perform s packet self m actor) := by
  rw [perform_eq]
  cases decided : decide s self m.name packet actor with
  | error r => exact Act.Orderly.event _ s trivial
  | ok act =>
    have written := (decide_orderly live decided).trans (Registry.stable_true 3)
      (Act.Orderly.event (withId packet (.object (("from", .str self) :: act.result s))) _ trivial)
    dsimp only
    split
    · rename_i releases
      have releases : m.release = true := (Bool.and_eq_true_iff.mp releases).1
      have stable := Registry.stable_not_above 3 self
      refine Scene.Orderly.weaken (k := 3) (P := fun r => ¬ r.Above 3 self)
        (.trans stable (written.weaken (Nat.le_refl 3) fun _ _ => trivial) (.release fun _ => id))
        (Nat.le_refl 3) fun valid _ => ?_
      exact valid.not_above (Registry.has_of_find? live) (rank_of_release listed releases)
    · exact written

theorem handle_orderly (s : Scene) (packet : Fields) : Scene.Orderly 3 (fun _ => True) s (handle s packet).1 := by
  have rejected (sender : String) (r : Refusal) :
      Scene.Orderly 3 (fun _ => True) s (reject s packet sender r).1 :=
    Act.Orderly.event _ s trivial
  unfold handle
  split
  · exact rejected _ _
  · split
    · exact rejected _ _
    · rename_i live
      split
      · exact rejected _ _
      · split
        · exact rejected _ _
        · rename_i checked
          exact perform_orderly live (List.mem_of_find?_eq_some (Schema.check_ok checked))

end Request

/-! ### Events -/

namespace Act.Orderly

variable {k : Nat} {P : Registry → Prop}

theorem queue (stable : Stable k P) (walker : String) (w : WalkerActor) (records : List Mutation) :
    Orderly k P (Walker.queue walker w records) :=
  Walker.queue_law (orderly_law stable) w (updateWalker _ _) (event _)

theorem onChanges (stable : Stable k P) (walker : String) (changes : List Dom.Change) :
    Orderly k P (Walker.onChanges walker changes) :=
  Walker.onChanges_law (orderly_law stable) get (queue stable walker) changes fun _ => updateWalker _ _

theorem onFrameLoad (stable : Stable k P) (walker : String) (frame : NodeId) :
    Orderly k P (Walker.onFrameLoad walker frame) :=
  Walker.onFrameLoad_law (orderly_law stable) get (queue stable walker) frame

theorem onDocumentUnload (stable : Stable k P) (low : k ≤ 4) (walker : String) (document : NodeId) :
    Orderly k P (Walker.onDocumentUnload walker document) :=
  Walker.onDocumentUnload_law (orderly_law stable) get (queue stable walker) document (releaseNode low walker)

theorem walkers (stable : Stable k P) (s : Scene) (tab : TabId) : Orderly k P (Serve.walkers s tab) := by
  unfold Serve.walkers
  split
  · refine (orderly_law stable).bind get fun s => ?_
    split
    · exact (orderly_law stable).pure _
    · refine (orderly_law stable).bind (update fun a => ?_) fun _ => (orderly_law stable).pure _
      cases a <;> exact ⟨rfl, rfl, List.Subset.refl _⟩
  · exact (orderly_law stable).pure _

end Act.Orderly

/-! ### Tabs -/

namespace Tabs

/-- The actors of a page, as they are registered: those of the tab come before the tab itself. -/
def added (s : Scene) (id : PageId) (page : Page) : List Registry.Entry :=
  let n := s.conn.registry.next
  let name kind i := Registry.nameOf s.conn.id kind (n + i)
  [⟨name "inspector" 1, some (name "tab" 0), .inspector { host := page.host }⟩,
    ⟨name "trace" 2, some (name "tab" 0), .trace page.host⟩,
    ⟨name "thread" 3, some (name "tab" 0), .thread { host := page.host }⟩,
    ⟨name "console" 4, some (name "tab" 0), .console { page := id, host := page.host }⟩,
    ⟨name "tab" 0, some rootName, .tab ⟨id, name "inspector" 1, name "trace" 2, name "console" 4, name "thread" 3⟩⟩]

theorem registry_register (s : Scene) (id : PageId) (page : Page) :
    ((register id page).after s).conn.registry =
      s.conn.registry.extend (added s id page) s.conn.registry.scripts (s.conn.registry.next + 5) := by
  show Registry.mk _ _ _ = Registry.mk _ _ _
  simp only [Registry.mk.injEq]
  refine ⟨?_, rfl, rfl⟩
  simp only [Scene.setConn, Scene.setRegistry, Registry.add, List.append_assoc, List.cons_append, List.nil_append]
  rfl

theorem result_register (s : Scene) (id : PageId) (page : Page) :
    (register id page).result s = Registry.nameOf s.conn.id "tab" s.conn.registry.next := rfl

theorem added_names (s : Scene) (id : PageId) (page : Page) :
    ∃ names, ((added s id page).map (·.name)).Perm names ∧ names.length = 5 ∧
      Registry.Consecutive s.conn.id s.conn.registry.next names := by
  have given (kind : String) (listed : kind ∈ Registry.kinds) (i : Nat) :
      Named s.conn.id (s.conn.registry.next + i) (s.conn.registry.next + i + 1)
        (Registry.nameOf s.conn.id kind (s.conn.registry.next + i)) :=
    ⟨kind, listed, _, Nat.le_refl _, Nat.lt_succ_self _, rfl⟩
  let name kind i := Registry.nameOf s.conn.id kind (s.conn.registry.next + i)
  refine ⟨[name "tab" 0, name "inspector" 1, name "trace" 2, name "thread" 3, name "console" 4], ?_, rfl, ?_⟩
  · exact List.perm_append_singleton (name "tab" 0)
      [name "inspector" 1, name "trace" 2, name "thread" 3, name "console" 4]
  · exact ⟨given "tab" (by decide) 0, given "inspector" (by decide) 1, given "trace" (by decide) 2,
      given "thread" (by decide) 3, given "console" (by decide) 4, trivial⟩

theorem added_named (s : Scene) (id : PageId) (page : Page) :
    ∀ e ∈ added s id page, Named s.conn.id s.conn.registry.next (s.conn.registry.next + 5) e.name := by
  obtain ⟨names, perm, length, consecutive⟩ := added_names s id page
  intro e member
  exact length ▸ consecutive.named _ (perm.mem_iff.mp (List.mem_map_of_mem member))

theorem added_nodup (s : Scene) (id : PageId) (page : Page) (few : s.conn.registry.next + 5 ≤ UInt32.size) :
    ((added s id page).map (·.name)).Nodup := by
  obtain ⟨names, perm, length, consecutive⟩ := added_names s id page
  exact perm.nodup_iff.mpr (consecutive.nodup (length ▸ few))

theorem register_orderly (id : PageId) (page : Page) :
    Act.Orderly 1 (fun r => r.Above 1 rootName) (register id page) := by
  refine fun s _ => ⟨rfl, Nat.le_add_right _ 5, fun few valid root => ?_⟩
  have few : s.conn.registry.next + 5 ≤ UInt32.size := few
  have nodup := added_nodup s id page few
  have named := added_named s id page
  obtain ⟨rank, top, root⟩ := root
  rw [registry_register]
  refine .extend valid (Nat.le_add_right _ 5) few ⟨nodup, named, ?_, ?_, ?_⟩ ?_ fun _ => .inl
  · intro e member
    have tab : ∃ o ∈ added s id page,
        o.name = Registry.nameOf s.conn.id "tab" s.conn.registry.next ∧ o.actor.rank = 1 :=
      ⟨_, List.mem_append_right [_, _, _, _] (List.mem_singleton_self _), rfl, rfl⟩
    simp only [added, List.mem_cons, List.not_mem_nil, or_false] at member
    rcases member with rfl | rfl | rfl | rfl | rfl
    · exact ⟨_, 1, rfl, Nat.lt_succ_self 1, .inr tab⟩
    · exact ⟨_, 1, rfl, Nat.lt_succ_self 1, .inr tab⟩
    · exact ⟨_, 1, rfl, Nat.lt_succ_self 1, .inr tab⟩
    · exact ⟨_, 1, rfl, Nat.lt_succ_self 1, .inr tab⟩
    · exact ⟨_, rank, rfl, top, .inl root⟩
  all_goals
    intro e member
    simp only [added, List.mem_cons, List.not_mem_nil, or_false] at member
    rcases member with rfl | rfl | rfl | rfl | rfl <;> simp [Actor.object?, Actor.mentions, Actor.rank, Table.values]

theorem not_above_tab {tab : TabId} {name : String} (valid : s.Valid)
    (listed : (root s).tabs.get? tab = some name) : ¬ s.conn.registry.Above 1 name := by
  unfold root at listed
  split at listed
  · rename_i actor found
    exact Scene.not_above_mentioned valid found (Table.mem_values_of_get? listed)
  · cases listed

/-- A page's actors have come, and the root lists its tab under them. -/
def enlisted (s : Scene) (tab : TabId) (id : PageId) (page : Page) : Scene :=
  (updateRoot fun r =>
    { r with tabs := r.tabs.insertBy (fun a b => decide (a < b)) tab ((register id page).result s) }).after
    ((register id page).after s)

theorem after_add (s : Scene) (tab : TabId) {id : PageId} {page : Page} (shown : s.site.page? id = some page) :
    (add tab id).after s = match (root s).tabs.get? tab with
      | some previous => (enlisted s tab id page).release previous
      | none => enlisted s tab id page := by
  simp only [add, Act.after_bind, Act.after_get, Act.result_get, shown]
  change Act.after _ (enlisted s tab id page) = _
  cases (root s).tabs.get? tab <;> rfl

theorem enlisted_orderly (s : Scene) (tab : TabId) (id : PageId) (page : Page) :
    Scene.Orderly 1 (fun r => r.Above 1 rootName) s (enlisted s tab id page) := by
  have first := register_orderly id page s trivial
  refine first.trans (Registry.stable_above 1 rootName) ?_
  refine .remember [(register id page).result s] 1 (fun a => ?_) (fun a => ?_) (fun a n mentioned => ?_) fun n new => ?_
  · cases a <;> rfl
  · cases a <;> rfl
  · cases a with
    | root actor =>
      obtain ⟨p, member, rfl⟩ := List.mem_map.mp mentioned
      rcases Table.mem_insertBy member with old | rfl
      · exact .inl (List.mem_map_of_mem old)
      · exact .inr ⟨List.mem_singleton_self _, Nat.lt_succ_self 0⟩
    | _ => exact .inl mentioned
  · cases List.mem_singleton.mp new
    rw [registry_register, result_register, first.id]
    refine ⟨⟨"tab", by decide, _, Nat.zero_le _, Nat.lt_add_of_pos_right (by decide), rfl⟩, ?_⟩
    exact Registry.has_extend.mpr
      (.inr ⟨_, List.mem_append_right [_, _, _, _] (List.mem_singleton_self _), rfl, rfl⟩)

theorem add_orderly (tab : TabId) (id : PageId) : Act.Orderly 1 (fun r => r.Above 1 rootName) (add tab id) := by
  have stable := Registry.stable_above 1 rootName
  intro s _
  cases shown : s.site.page? id with
  | none =>
    simp only [add, Act.after_bind, Act.after_get, Act.result_get, shown]
    exact .refl s
  | some page =>
    rw [after_add s tab shown]
    have enlisted := enlisted_orderly s tab id page
    cases listed : (root s).tabs.get? tab with
    | none => exact enlisted
    | some previous =>
      have stable' := stable.and (Registry.stable_not_above 1 previous)
      have released := Scene.Orderly.trans stable' (enlisted.weaken (Nat.le_refl 1) fun _ holds => holds.1)
        (.release fun _ holds => holds.2)
      exact released.weaken (Nat.le_refl 1) fun valid holds => ⟨holds, not_above_tab valid listed⟩

def delisted (s : Scene) (tab : TabId) : Scene :=
  (updateRoot fun r => { r with tabs := r.tabs.erase tab }).after s

theorem after_remove (s : Scene) (tab : TabId) :
    (remove tab).after s = match (root s).tabs.get? tab with
      | some name => (delisted s tab).release name
      | none => delisted s tab := by
  simp only [remove, Act.after_bind, Act.after_get, Act.result_get]
  change Act.after _ (delisted s tab) = _
  cases (root s).tabs.get? tab <;> rfl

theorem delisted_orderly {P : Registry → Prop} (s : Scene) (tab : TabId) : Scene.Orderly 1 P s (delisted s tab) := by
  refine Act.Orderly.update (fun a => ?_) s trivial
  cases a with
  | root actor => exact ⟨rfl, rfl, (List.filter_sublist.map _).subset⟩
  | _ => exact .refl _

theorem remove_orderly (tab : TabId) : Act.Orderly 1 (fun _ => True) (remove tab) := by
  intro s _
  rw [after_remove]
  cases listed : (root s).tabs.get? tab with
  | none => exact delisted_orderly s tab
  | some name =>
    have released := Scene.Orderly.trans (Registry.stable_not_above 1 name) (delisted_orderly s tab)
      (.release fun _ low => low)
    exact released.weaken (Nat.le_refl 1) fun valid _ => not_above_tab valid listed

end Tabs

/-! ### Messages and requests of the page -/

theorem Tabs.has_console {tab : TabId} {name : String} {c : ConsoleActor}
    (found : Tabs.console? s tab = some (name, c)) : s.find? name = some (.console c) := by
  obtain ⟨t, _, found⟩ := Option.bind_eq_some_iff.mp found
  obtain ⟨c', found, same⟩ := Option.map_eq_some_iff.mp found
  cases same
  exact Scene.console?_eq_some.mp found

namespace Network

variable {console : String} {c : ConsoleActor}

theorem not_above_request {id name : String} (live : s.find? console = some (.console c)) (valid : s.Valid)
    (listed : c.requests.get? id = some name) : ¬ s.conn.registry.Above 3 name :=
  Scene.not_above_mentioned valid live (Table.mem_values_of_get? listed)

/-- The scene once a request that starts has its actor and the console knows it. -/
def enlisted (s : Scene) (console : String) (c : ConsoleActor) (id : String) (request : HttpRequest) : Scene :=
  let start := Act.register "netEvent" console (.network { console, request, saveBodies := c.saveBodies })
  (Act.updateConsole console fun c => { c with requests := c.requests.insert id (start.result s) }).after (start.after s)

/-- What else a start does: the actor of an earlier start goes, and the client is told. -/
theorem after_onStart (s : Scene) (console : String) (c : ConsoleActor) (id : String) (request : HttpRequest) :
    (onStart console c id request).after s =
      ((c.requests.get? id).elim (enlisted s console c id request) (enlisted s console c id request).release).write
        (Event.packet console "networkEvent" [("eventActor", NetworkActor.form
          (s.conn.registry.newName s.conn.id "netEvent") { console, request, saveBodies := c.saveBodies })]) := by
  unfold onStart
  simp only [Act.after_bind]
  cases c.requests.get? id <;> rfl

theorem enlisted_orderly (s : Scene) (console : String) (c : ConsoleActor) (id : String) (request : HttpRequest) :
    Scene.Orderly 3 (fun r => r.Above 3 console) s (enlisted s console c id request) := by
  let start := Act.register "netEvent" console (.network { console, request, saveBodies := c.saveBodies })
  have registered : Act.Orderly 3 (fun r => r.Above 3 console) start :=
    .register (by decide) (Nat.le_refl 3) (fun _ above => above) rfl rfl
  refine (registered s trivial).trans (Registry.stable_above 3 console) ?_
  refine .remember [start.result s] 3 (fun a => ?_) (fun a => ?_) (fun a n mentioned => ?_) fun n new => ?_
  · cases a <;> rfl
  · cases a <;> rfl
  · cases a with
    | console c =>
      obtain ⟨p, member, rfl⟩ := List.mem_map.mp mentioned
      rcases Table.mem_insert member with old | rfl
      · exact .inl (List.mem_map_of_mem old)
      · exact .inr ⟨List.mem_singleton_self _, Nat.lt_succ_self 2⟩
    | _ => exact .inl mentioned
  · cases List.mem_singleton.mp new
    refine ⟨(Registry.newName_named (by decide) _ _).widen (Nat.zero_le _) (Nat.le_refl _), ?_⟩
    exact ⟨_, List.mem_append_right _ (List.mem_singleton_self _), rfl, rfl⟩

theorem onStart_orderly (live : s.find? console = some (.console c)) (id : String) (request : HttpRequest) :
    Scene.Orderly 3 (fun _ => True) s ((onStart console c id request).after s) := by
  have stable := Registry.stable_above 3 console
  have enlisted := enlisted_orderly s console c id request
  have has : s.conn.registry.Has console 2 := Registry.has_of_find? live
  rw [after_onStart]
  refine Scene.Orderly.trans (Registry.stable_true 3) ?_ (Act.Orderly.event _ _ trivial)
  cases listed : c.requests.get? id with
  | none => exact enlisted.weaken (Nat.le_refl 3) fun _ _ => ⟨2, by decide, has⟩
  | some previous =>
    have stable' := stable.and (Registry.stable_not_above 3 previous)
    have released := Scene.Orderly.trans stable' (enlisted.weaken (Nat.le_refl 3) fun _ holds => holds.1)
      (.release fun _ holds => holds.2)
    exact released.weaken (Nat.le_refl 3) fun valid _ =>
      ⟨⟨2, by decide, has⟩, not_above_request live valid listed⟩

theorem onUpdate_orderly (s : Scene) (console : String) (c : ConsoleActor) (id : String)
    (event : NetworkEvent) : Scene.Orderly 3 (fun _ => True) s ((onUpdate console c id event).after s) := by
  unfold onUpdate
  simp only [Act.after_bind, Act.after_get, Act.result_get]
  split
  · have erased : Act.Orderly 3 (fun _ => True)
        (Act.updateConsole console fun c => { c with requests := c.requests.erase id }) :=
      .updateConsole fun c => (List.filter_sublist.map _).subset
    exact erased s trivial
  · rename_i name n found
    obtain ⟨name', _, found⟩ := Option.bind_eq_some_iff.mp found
    obtain ⟨n', live, same⟩ := Option.map_eq_some_iff.mp found
    cases same
    split
    · exact .refl s
    · rename_i n' _ _ _
      refine Scene.Orderly.trans (Registry.stable_true 3) ?_ (Act.Orderly.event _ _ trivial)
      refine ⟨rfl, Nat.le_refl _, fun _ valid _ => ?_⟩
      have alike : ∀ e ∈ s.conn.registry.entries, e.name = name → e.actor.Alike (.network n') := by
        intro e member same
        rw [valid.actor_of_find? (Scene.network?_eq_some.mp live) member same]
        exact ⟨rfl, rfl, List.Subset.refl _⟩
      exact Follows.update (f := fun _ => .network n') (valid.update_alike alike) fun e member same =>
        (alike e member same).rank

theorem onEvent_orderly (live : s.find? console = some (.console c)) (id : String) (event : NetworkEvent) :
    Scene.Orderly 3 (fun _ => True) s ((onEvent console c id event).after s) := by
  unfold onEvent
  split
  · split
    · exact onStart_orderly live id _
    · exact onUpdate_orderly s console c id _
  · exact .refl s

end Network

namespace Serve

theorem onMessage_orderly {console : String} {c : ConsoleActor} (live : s.find? console = some (.console c))
    (m : ConsoleMessage) : Scene.Orderly 5 (fun _ => True) s ((Console.onMessage console c m).after s) := by
  have stable := Registry.stable_above 5 console
  have gripping : Gripping (Act.Orderly 5 fun r => r.Above 5 console) console :=
    Act.Orderly.gripping stable (Nat.le_refl 5) fun _ above => above
  have law := Act.orderly_law stable
  have form : Act.Orderly 5 (fun r => r.Above 5 console) (Console.messageForm console m) :=
    law.bind (law.mapM gripping.owned _) fun _ => law.pure _
  unfold Console.onMessage
  split
  · refine Scene.Orderly.weaken (law.bind form (fun _ => .event _) s trivial) (Nat.le_refl 5) fun _ _ => ?_
    exact ⟨2, by decide, Registry.has_of_find? live⟩
  · exact .refl s

/-- An event by which no tab comes or goes leaves the tabs and their actors in place. -/
theorem fixed_orderly (s : Scene) {event : Event} (fixed : event.Fixed) :
    Scene.Orderly 3 (fun _ => True) s ((follow s event).after s) := by
  have stable := Registry.stable_true 3
  have law := Act.orderly_law stable
  unfold follow
  cases event with
  | changes walker changes => exact Act.Orderly.onChanges stable walker changes s trivial
  | tabAdded tab page => exact fixed.elim
  | tabClosed tab => exact fixed.elim
  | consoleApi tab message =>
    dsimp only
    split
    · rename_i found
      exact (onMessage_orderly (Tabs.has_console found) message).weaken (by decide) fun _ _ => trivial
    · exact .refl s
  | pageError tab error =>
    dsimp only
    split
    · unfold Console.onPageError
      split
      · exact Act.Orderly.event _ s trivial
      · exact .refl s
    · exact .refl s
  | fileActivity tab uri =>
    dsimp only
    split
    · unfold Console.onFileActivity
      split
      · exact Act.Orderly.event _ s trivial
      · exact .refl s
    · exact .refl s
  | network tab request event =>
    dsimp only
    split
    · rename_i found
      exact Network.onEvent_orderly (Tabs.has_console found) request event
    · exact .refl s
  | frameLoad tab frame =>
    exact law.bind (Act.Orderly.walkers stable s tab)
      (fun _ => law.forM_mem fun walker _ => .onFrameLoad stable walker frame) s trivial
  | documentUnload tab document =>
    exact law.bind (Act.Orderly.walkers stable s tab)
      (fun _ => law.forM_mem fun walker _ => .onDocumentUnload stable (by decide) walker document) s trivial

theorem follow_orderly (s : Scene) (event : Event) :
    Scene.Orderly 1 (fun r => r.Above 1 Tabs.rootName) s ((follow s event).after s) := by
  have held {event : Event} (fixed : event.Fixed) :
      Scene.Orderly 1 (fun r => r.Above 1 Tabs.rootName) s ((follow s event).after s) :=
    (fixed_orderly s fixed).weaken (by decide) fun _ _ => trivial
  cases event with
  | tabAdded tab page => exact Tabs.add_orderly tab page s trivial
  | tabClosed tab => exact (Tabs.remove_orderly tab s trivial).weaken (Nat.le_refl 1) fun _ _ => trivial
  | _ => exact held trivial

end Serve

end RemoteInspector
