import RemoteInspector.Proofs.Inspector.Mindful
import RemoteInspector.Proofs.Inspector.Pairing
import RemoteInspector.Proofs.Serve.Lineage
/-!
Walkers side by side: a request to one leaves the others as they are, unless it is asked to release a node of another.
-/
namespace RemoteInspector

theorem Schema.name_of_release {m : Method} (listed : m ∈ walker.methods) (releases : m.release = true) :
    m.name = "release" := by
  simp only [walker, List.mem_cons, List.not_mem_nil, or_false] at listed
  rcases listed with rfl | rfl | rfl | rfl | rfl | rfl | rfl | rfl | rfl | rfl | rfl | rfl
  all_goals first | rfl | cases releases

/-! ### Who stays when others leave -/

namespace Scene

variable {n : NodeActor}

variable {s : Scene} {name x : String} {a : Actor}

theorem releaseOne_kept (found : s.find? x = some a) (other : x ≠ name) (plain : ∀ c, a ≠ .console c)
    (strange : ∀ n, s.find? name = some (.node n) → n.walker = x → ∀ w, a ≠ .walker w) :
    (s.releaseOne name).find? x = some a := by
  have kept : (s.setRegistry (·.remove name)).find? x = some a := by
    rw [← found]
    exact (Registry.find?_remove _ _ _).trans (if_neg other)
  unfold releaseOne
  cases gone : s.find? name with
  | none => exact found
  | some b =>
    dsimp only
    cases b with
    | node n =>
      rw [find?_destroy_node, kept, Option.map_some]
      split
      · cases a with
        | walker w => exact absurd rfl (strange n gone (Eq.symm ‹_›) w)
        | _ => rfl
      · rfl
    | console c =>
      simp only [destroy]
      split <;> exact kept
    | network n =>
      rw [destroy, find?_update, kept, Option.map_some]
      split
      · cases a with
        | console c => exact absurd rfl (plain c)
        | _ => rfl
      · rfl
    | trace host => rw [destroy, find?_detach, kept]
    | _ => exact kept

theorem find?_releaseOne_node :
    (s.releaseOne name).find? x = some (.node n) ↔ x ≠ name ∧ s.find? x = some (.node n) := by
  rw [← tie?_eq_node, ← tie?_eq_node]
  exact plain_releaseOne s name trivial

theorem foldl_releaseOne_kept {names : List String} (found : s.find? x = some a) (plain : ∀ c, a ≠ .console c)
    (strange : ∀ y ∈ names, x ≠ y ∧ ∀ n, s.find? y = some (.node n) → n.walker = x → ∀ w, a ≠ .walker w) :
    (names.foldl releaseOne s).find? x = some a := by
  induction names generalizing s with
  | nil => exact found
  | cons y rest ih =>
    obtain ⟨other, apart⟩ := strange y (by simp)
    refine ih (releaseOne_kept found other plain apart) fun z member => ?_
    obtain ⟨other, apart⟩ := strange z (by simp [member])
    exact ⟨other, fun n there => apart n (find?_releaseOne_node.mp there).2⟩

theorem release_kept (valid : s.Valid) (found : s.find? x = some a)
    (plain : ∀ c, a ≠ .console c) (strange : ∀ y, s.conn.registry.Under name y →
      x ≠ y ∧ ∀ n, s.find? y = some (.node n) → n.walker = x → ∀ w, a ≠ .walker w) :
    (s.release name).find? x = some a :=
  foldl_releaseOne_kept found plain fun y member => strange y (valid.mem_releaseOrder.mp member)

theorem find?_node_of_release (found : (s.release name).find? x = some (.node n)) : s.find? x = some (.node n) := by
  unfold release at found
  generalize s.conn.registry.releaseOrder s.conn.registry.entries.length name = names at found
  induction names generalizing s with
  | nil => exact found
  | cons y rest ih => exact (find?_releaseOne_node.mp (ih found)).2

theorem find?_release_node (valid : s.Valid) {m : NodeActor}
    (found : s.find? name = some (.node n)) :
    (s.release name).find? x = some (.node m) ↔ x ≠ name ∧ s.find? x = some (.node m) := by
  obtain ⟨owned, low, find⟩ := release_node valid found
  rw [find]
  constructor
  · intro there
    split at there
    · cases there
    · rename_i stays
      obtain ⟨a, old, new⟩ := Option.map_eq_some_iff.mp there
      refine ⟨fun same => stays (.inl same), old.trans (congrArg some ?_)⟩
      split at new
      · cases a <;> first | exact new | cases new
      · exact new
  · rintro ⟨other, there⟩
    have stays : ¬ (x = name ∨ x ∈ owned) :=
      not_or.mpr ⟨other, fun member => absurd (low x member _ there) (by simp [Actor.rank])⟩
    rw [if_neg stays, there, Option.map_some]
    split <;> rfl

end Scene

namespace Walker

variable {n : NodeActor} {packet : Fields}

variable {s t u : Scene} {own other host name : String} {w w' : WalkerActor}

/-! ### Another walker -/

/-- A walker is as it was: what it knows, its orphans, its records and its nodes. -/
structure Untouched (other : String) (s t : Scene) : Prop where
  walker : t.find? other = s.find? other
  nodes : ∀ x (n : NodeActor), n.walker = other → (t.find? x = some (.node n) ↔ s.find? x = some (.node n))

namespace Untouched

theorem same (find : ∀ x, t.find? x = s.find? x) : Untouched other s t :=
  ⟨find other, fun x _ _ => by rw [find x]⟩

theorem trans (first : Untouched other s t) (next : Untouched other t u) : Untouched other s u :=
  ⟨next.walker.trans first.walker, fun x n made => (next.nodes x n made).trans (first.nodes x n made)⟩

theorem of_minds (minds : Minds own s t) (before : Tidy own s) (after : Tidy own t) (apart : other ≠ own)
    (live : s.find? other = some (.walker w)) : Untouched other s t where
  walker := by
    rw [live]
    exact minds.stays live apart (by simp [Actor.rank]) fun n same => nomatch same
  nodes x n made := by
    have strange : n.walker ≠ own := made.symm ▸ apart
    constructor
    · intro found
      rcases minds.back found with rfl | before | ⟨_, same, mine⟩
      · obtain ⟨_, live⟩ := after.live
        cases live.symm.trans found
      · exact before
      · cases same
        exact absurd mine strange
    · intro found
      refine minds.stays found ?_ (by simp [Actor.rank]) fun m same => ?_
      · rintro rfl
        obtain ⟨_, live⟩ := before.live
        cases live.symm.trans found
      · cases same
        exact strange

/-- A walker leaves with its own nodes only. -/
theorem release (valid : s.Valid) (housed : s.conn.registry.Housed)
    (live : s.find? own = some (.walker w)) (apart : other ≠ own) (live' : s.find? other = some (.walker w')) :
    Untouched other s (s.release own) := by
  have has : s.conn.registry.Has own 3 := Registry.has_of_find? live
  -- no walker is under another, and a node is under the walker it was made for
  have clear : ¬ s.conn.registry.Under own other := by
    intro under
    rcases Relation.ReflTransGen.cases_head under with same | ⟨child, owns, below⟩
    · exact apart same.symm
    · obtain ⟨rank, has', lower⟩ := valid.rank_lt owns has
      obtain ⟨rank', has'', le⟩ := valid.rank_le below has'
      have same : rank' = 3 := valid.has_unique has'' (Registry.has_of_find? live')
      omega
  have strange {y : String} (under : s.conn.registry.Under own y) {n : NodeActor}
      (found : s.find? y = some (.node n)) : n.walker ≠ other := by
    rintro rfl
    rcases Relation.ReflTransGen.cases_tail under with rfl | ⟨owner, above, owns⟩
    · cases live.symm.trans found
    · obtain ⟨e, there, made⟩ := Option.map_eq_some_iff.mp ((Registry.find?_eq_entryOf? _ _).symm.trans found)
      obtain ⟨e', member, named, owned⟩ := Registry.owns_iff.mp owns
      have named' : e.name = y := by simpa using List.find?_some there
      have same := valid.entry_unique member (List.mem_of_find?_eq_some there) (named.trans named'.symm)
      subst same
      rw [housed y e' there n made] at owned
      cases owned
      exact clear above
  constructor
  · rw [live']
    refine Scene.release_kept valid live' (fun c same => nomatch same) fun y under => ⟨?_, fun n found made => ?_⟩
    · rintro rfl
      exact clear under
    · exact absurd made (strange under found)
  · intro x n made
    refine ⟨Scene.find?_node_of_release, fun found => ?_⟩
    refine Scene.release_kept valid found (fun c same => nomatch same) fun y under =>
      ⟨?_, fun _ _ _ w same => nomatch same⟩
    rintro rfl
    exact strange under found made

theorem register {kind owner : String} {actor : Actor} (valid : s.Valid)
    (few : ((Act.register kind owner actor).after s).Few)
    (listed : kind ∈ Registry.kinds) (plain : ∀ n, actor ≠ .node n) (live : s.find? other = some (.walker w)) :
    Untouched other s ((Act.register kind owner actor).after s) := by
  have fresh := Scene.find?_newName valid few listed
  have find := Scene.find?_register owner actor fresh
  constructor
  · rw [find, if_neg]
    rintro same
    rw [same, fresh] at live
    cases live
  · intro x n _
    rw [find]
    split
    · rename_i same
      rw [same, fresh]
      exact ⟨fun made => absurd (Option.some.inj made) (plain n), fun made => nomatch made⟩
    · exact .rfl

theorem release_node (valid : s.Valid) (live : s.find? other = some (.walker w))
    (strange : ∀ a, s.find? name = some a → ∃ n, a = .node n ∧ n.walker ≠ other) :
    Untouched other s (s.release name) := by
  cases found : s.find? name with
  | none => exact .same fun x => by rw [Scene.release_absent valid found]
  | some a =>
    obtain ⟨n, rfl, made⟩ := strange a found
    obtain ⟨owned, low, find⟩ := Scene.release_node valid found
    constructor
    · have stays : ¬ (other = name ∨ other ∈ owned) := by
        rintro (rfl | member)
        · cases live.symm.trans found
        · exact absurd (low other member _ live) (by simp [Actor.rank])
      rw [find, if_neg stays, live, Option.map_some, if_neg made.symm]
    · intro x m made'
      rw [Scene.find?_release_node valid found, and_iff_right_of_imp]
      rintro there rfl
      cases found.symm.trans there
      exact made made'

end Untouched

/-- A packet asks to release a node. -/
def Releases (packet : Fields) (name : String) : Prop :=
  packet.get? "type" = some (.str "releaseNode") ∧ packet.get? "node" = some (.str name)

theorem after_releaseNode (tidy : Tidy own s) (found : s.find? name = some (.node n))
    (few : ((releaseNode own host name).after s).Few) :
    ∃ t, Tidy own t ∧ Minds own s t ∧ (releaseNode own host name).after s = t.release name := by
  obtain ⟨fuel, enough⟩ := (s.site.dom host).reach_succ
  have after : (releaseNode own host name).after s =
      (((Walk.below (s.site.dom host) .all n.node).forM (visit own host fuel)).after s).release name := by
    rw [releaseNode, Act.after_get_bind, enough]
    exact after_releaseBelow (Scene.node?_eq_some.mpr found) fuel
  have loop : Mindful own [] ((Walk.below (s.site.dom host) .all n.node).forM (visit own host fuel)) (fun _ => []) s :=
    .forM (fun child _ t => .visit (Mindful.releaseBelow own host fuel) child t) s
  rw [after, Scene.Few, Scene.next_release] at few
  obtain ⟨tidy', minds, _⟩ := loop.2 few tidy (by simp)
  exact ⟨_, tidy', minds, after⟩

section

variable (tidy : Tidy own s) (apart : other ≠ own) (live : s.find? other = some (.walker w))
  (found : s.find? name = some (.node n))

include tidy apart live found

theorem releaseNode_untouched (strange : n.walker ≠ other)
    (few : ((releaseNode own host name).after s).Few) : Untouched other s ((releaseNode own host name).after s) := by
  obtain ⟨t, tidy', minds, after⟩ := after_releaseNode tidy found few
  have before := Untouched.of_minds minds tidy tidy' apart live
  rw [after]
  refine before.trans (.release_node tidy'.valid (before.walker.trans live) fun a there => ?_)
  rcases minds.back there with rfl | same | ⟨m, same, made⟩
  · obtain ⟨_, live⟩ := tidy.live
    cases live.symm.trans found
  · cases found.symm.trans same
    exact ⟨n, rfl, strange⟩
  · exact ⟨m, same, made ▸ apart.symm⟩

theorem releaseNode_strange (made : n.walker = other)
    (few : ((releaseNode own host name).after s).Few) :
    let t := (releaseNode own host name).after s
    t.find? other = some (.walker (w.forget n.node name)) ∧ ∀ x (m : NodeActor), m.walker = other →
      (t.find? x = some (.node m) ↔ x ≠ name ∧ s.find? x = some (.node m)) := by
  obtain ⟨t, tidy', minds, after⟩ := after_releaseNode tidy found few
  have before := Untouched.of_minds minds tidy tidy' apart live
  have live' := before.walker.trans live
  have found' := (before.nodes name n made).mpr found
  rw [after]
  refine ⟨?_, fun x m made' => ?_⟩
  · obtain ⟨owned, low, find⟩ := Scene.release_node tidy'.valid found'
    have stays : ¬ (other = name ∨ other ∈ owned) := by
      rintro (rfl | member)
      · cases live'.symm.trans found'
      · exact absurd (low other member _ live') (by simp [Actor.rank])
    rw [find, if_neg stays, live', Option.map_some, made, if_pos rfl]
    rfl
  · rw [Scene.find?_release_node tidy'.valid found', before.nodes x m made']

end

/-! ### Requests -/

theorem tidy_of_paired (paired : s.Paired) (valid : s.Valid)
    (live : s.find? own = some (.walker w)) : Tidy own s ∧ ∀ x ∈ w.orphans, Own own s x := by
  have tied : s.tie? own = some (.walker w.host w.root w.known w.orphans) := Scene.tie?_of_walker live
  have mine {x : String} {node : NodeId} (stands : s.Stands own x node) : Own own s x := by
    obtain ⟨n, there, made, _⟩ := stands
    intro a found
    cases (Scene.tie?_eq_node.mp there).symm.trans found
    exact ⟨n, rfl, made⟩
  refine ⟨⟨valid, ⟨w, live⟩, fun known => ?_⟩, fun x member => ?_⟩
  · rw [Scene.known?_of_walker live] at known
    exact mine ((paired.known tied _ _).mp known)
  · obtain ⟨node, stands⟩ := (paired.orphans tied).2 x member
    exact mine stands

section

variable (live : s.find? own = some (.walker w)) (addressed : packet.get? "to" = some (.str own))

include live addressed

theorem handle_walker :
    let t := (Request.handle s packet).1
    ∃ answer, t = s.write answer ∨ t = (s.write answer).release own ∨ ∃ method act,
      packet.get? "type" = some (.str method) ∧ decide s own w method packet = .ok act ∧
        t = (act.after s).write answer := by
  intro t
  have handled : t = (Request.handle s packet).1 := rfl
  simp only [Request.handle, addressed, Option.bind_some, Json.string?, live] at handled
  split at handled
  · exact ⟨_, .inl handled⟩
  · rename_i type typed
    split at handled
    · exact ⟨_, .inl handled⟩
    · rename_i method checked
      have found := Schema.check_ok checked
      have named : method.name = type := by simpa using List.find?_some found
      have listed : method ∈ Schema.walker.methods := List.mem_of_find?_eq_some found
      dsimp only at handled
      rw [Request.perform_eq] at handled
      split at handled
      · exact ⟨_, .inl handled⟩
      · rename_i act accepted
        change decide s own w method.name packet = .ok act at accepted
        dsimp only at handled
        split at handled
        · rename_i leaves
          -- one method only makes its actor leave, and it does nothing before
          have name : method.name = "release" := Schema.name_of_release listed (Bool.and_eq_true_iff.mp leaves).1
          rw [name] at accepted
          cases accepted
          exact ⟨_, .inr (.inl handled)⟩
        · exact ⟨_, .inr (.inr ⟨type, act, Request.string?_eq_some.mp typed, named ▸ accepted, handled⟩)⟩

theorem handle_releases (releases : Releases packet name) (found : s.find? name = some (.node n)) :
    ∃ answer, (Request.handle s packet).1 = ((releaseNode own w.host name).after s).write answer := by
  obtain ⟨typed, given⟩ := releases
  let method : Method := { name := "releaseNode", request := [Schema.arg "node" Schema.domNode] }
  have checked : (Actor.walker w).schema.check "releaseNode" packet = .ok method := by
    have listed : Schema.walker.method? "releaseNode" = some method := by simp [Schema.method?, Schema.walker, method]
    refine Schema.check_of listed ?_
    change ((Schema.arg "node" Schema.domNode).check packet >>= fun _ => pure ()) = _
    rw [Parameter.check, Schema.arg, given]
    rfl
  have accepted : decide s own w "releaseNode" packet = .ok (do
      releaseNode own w.host name
      return []) := by
    have text : textArgument packet "node" = .ok name := by
      rw [textArgument, given]
      rfl
    have looked : s.lookupNode name = .ok n.node := by
      rw [Scene.lookupNode, Scene.node?_eq_some.mpr found]
    simp only [decide, text]
    change (s.lookupNode name >>= _) = _
    rw [looked]
    rfl
  exact ⟨_, congrArg Prod.fst (Request.handle_decided addressed live typed checked rfl accepted)⟩

end

theorem decide_querySelectorAll {act : Act Reply} (accepted : decide s own w "querySelectorAll" packet = .ok act) :
    ∃ found : List NodeId, act = (do
      let list ← Act.register "domnodelist" own (.nodeList ⟨own, found⟩)
      return [("list", .object [("actor", .str list), ("length", .nat found.length)])]) := by
  simp only [decide] at accepted
  obtain ⟨base, _, accepted⟩ := Decision.bind_ok accepted
  obtain ⟨text, _, accepted⟩ := Decision.bind_ok accepted
  obtain ⟨found, _, accepted⟩ := Decision.bind_ok accepted
  cases accepted
  exact ⟨found, rfl⟩

/-- A packet to one walker, and another walker whose nodes it does not ask to release. -/
theorem handle_untouched (tidy : Tidy own s) (housed : s.conn.registry.Housed) (live : s.find? own = some (.walker w))
    (orphans : ∀ x ∈ w.orphans, Own own s x) (live' : s.find? other = some (.walker w')) (apart : other ≠ own)
    (addressed : packet.get? "to" = some (.str own)) (few : (Request.handle s packet).1.Few)
    (strange : ∀ name n, Releases packet name → s.find? name = some (.node n) → n.walker ≠ other) :
    Untouched other s (Request.handle s packet).1 := by
  have written (t : Scene) (answer : Json) : Untouched other t (t.write answer) := .same (Scene.find?_write t answer)
  obtain ⟨answer, refused | left | ⟨method, act, typed, accepted, after⟩⟩ := handle_walker live addressed
  · rw [refused]
    exact written s answer
  · rw [left]
    have id : (s.write answer).conn.id = s.conn.id := by
      unfold Scene.write
      split <;> rfl
    have find := Scene.find?_write s answer
    refine (written s answer).trans (.release ?_ ?_ ((find own).trans live) apart ((find other).trans live'))
    · rw [Scene.Valid, Scene.registry_write, id]
      exact tidy.valid
    · rw [Scene.registry_write]
      exact housed
  · rw [after, Scene.Few, Scene.registry_write] at few
    rw [after]
    refine Untouched.trans ?_ (written _ answer)
    by_cases one : method = "releaseNode"
    · subst one
      obtain ⟨name, node, given, looked, rfl⟩ := decide_releaseNode accepted
      rw [Scene.lookupNode] at looked
      split at looked
      · rename_i n there
        have found := Scene.node?_eq_some.mp there
        exact releaseNode_untouched tidy apart live' found (strange name n ⟨typed, given⟩ found) few
      · cases looked
    · by_cases all : method = "querySelectorAll"
      · subst all
        obtain ⟨found, rfl⟩ := decide_querySelectorAll accepted
        exact .register tidy.valid few (by decide) (fun n same => by cases same) live'
      · obtain ⟨tidy', minds, _⟩ := (decide_mindful accepted one all).2 few tidy orphans
        exact .of_minds minds tidy tidy' apart live'

end Walker

namespace Serve

open Walker (Untouched Releases)

variable {c : Connection}

/-- As long as the names last, whatever a connection has gone through: a packet to a walker leaves any other walker
as it is, with all that it knows, its orphans, its records and its nodes, whichever nodes the packet names; unless
it asks to release a node of the other walker. Then the other walker is left without this one node, and is
otherwise as it was. -/
theorem walkers_apart (begun : Begun c) (turns : List Turn) (site : Site) {own other : String} {w w' : WalkerActor}
    (live : (turns.foldl take c).registry.find? own = some (.walker w))
    (live' : (turns.foldl take c).registry.find? other = some (.walker w')) (apart : other ≠ own) {packet : Fields}
    (addressed : packet.get? "to" = some (.str own))
    (few : (Request.handle ⟨site, turns.foldl take c⟩ packet).1.conn.registry.next ≤ UInt32.size) :
    let s : Scene := ⟨site, turns.foldl take c⟩
    let t := (Request.handle s packet).1
    ((∀ name n, Releases packet name → s.find? name = some (.node n) → n.walker ≠ other) → Untouched other s t) ∧
    ∀ name n, Releases packet name → s.find? name = some (.node n) → n.walker = other →
      t.find? other = some (.walker (w'.forget n.node name)) ∧ ∀ x (m : NodeActor), m.walker = other →
        (t.find? x = some (.node m) ↔ x ≠ name ∧ s.find? x = some (.node m)) := by
  intro s t
  have before := foldl_take_later c turns
  have few_s : s.Few :=
    Nat.le_trans (Request.handle_orderly s packet).later few
  have few_c : c.Few := Nat.le_trans before.later few_s
  have valid : s.Valid := (before.sound few_s (sound_of_begun begun few_c)).1.valid
  have housed : s.conn.registry.Housed := (foldl_take_continues c turns site site).housed (housed_of_begun begun)
  have paired : s.Paired := paired_run turns few_s (paired_of_begun begun few_c)
  obtain ⟨tidy, orphans⟩ := Walker.tidy_of_paired paired valid live
  refine ⟨Walker.handle_untouched tidy housed live orphans live' apart addressed few,
    fun name n releases found made => ?_⟩
  obtain ⟨answer, after⟩ := Walker.handle_releases (s := s) live addressed releases found
  have written := Scene.find?_write ((Walker.releaseNode own w.host name).after s) answer
  have few : ((Walker.releaseNode own w.host name).after s).Few := by
    rwa [after, Scene.registry_write] at few
  have left := Walker.releaseNode_strange tidy apart live' found made few
  have find (x : String) : t.find? x = ((Walker.releaseNode own w.host name).after s).find? x := by
    rw [← written, ← after]
  rw [find]
  exact ⟨left.1, fun x m made' => find x ▸ left.2 x m made'⟩

def lookout : Site :=
  onePage { nodes := [(1, { kind := 9, children := [2] }), (2, { kind := 1, parent := some 1 })] }

/-- Two walkers come to look at the document, and the second gets to know the element. -/
def sightseeing : List Turn :=
  [⟨lookout, .packet (.obj (request "conn0.inspector1" "getWalker" []))⟩,
    ⟨lookout, .packet (.obj (request "conn0.inspector1" "getWalker" []))⟩,
    ⟨lookout, .packet (.obj (request "conn0.domwalker7" "documentElement" []))⟩]

/-- Asked for what is below another's node, a walker makes an actor of its own for what the other knows already. -/
theorem walkers_apart_children :
    let s : Scene := ⟨lookout, sightseeing.foldl take (joined lookout)⟩
    let t := (Request.handle s (request "conn0.domwalker5" "children" [("node", .str "conn0.domnode8")])).1
    Untouched "conn0.domwalker7" s t ∧ s.known? "conn0.domwalker7" 2 = some "conn0.domnode9" ∧
      t.known? "conn0.domwalker5" 2 = some "conn0.domnode10" := by
  intro s t
  have some {name : String} (there : (s.walker? name).isSome = true) :
      ∃ w, (sightseeing.foldl take (joined lookout)).registry.find? name = some (.walker w) :=
    (Option.isSome_iff_exists.mp there).imp fun _ => Scene.walker?_eq_some.mp
  obtain ⟨w, live⟩ := some (show (s.walker? "conn0.domwalker5").isSome = true by decide +kernel)
  obtain ⟨w', live'⟩ := some (show (s.walker? "conn0.domwalker7").isSome = true by decide +kernel)
  let packet := request "conn0.domwalker5" "children" [("node", .str "conn0.domnode8")]
  have addressed : packet.get? "to" = .some (.str "conn0.domwalker5") := rfl
  have few : t.Few := by decide +kernel
  refine ⟨(walkers_apart (begun_joined lookout) sightseeing lookout live live' (by decide) addressed few).1 ?_,
    by decide +kernel, by decide +kernel⟩
  rintro name n ⟨typed, _⟩
  exact absurd (Json.str.inj (Option.some.inj typed) : "children" = "releaseNode") (by decide)

/-- Asked to release another's node, a walker does. -/
theorem walker_releases_strange :
    let s : Scene := ⟨lookout, sightseeing.foldl take (joined lookout)⟩
    let t := (Request.handle s (request "conn0.domwalker5" "releaseNode" [("node", .str "conn0.domnode9")])).1
    Begun (joined lookout) ∧ s.known? "conn0.domwalker7" 2 = some "conn0.domnode9" ∧
      (s.node? "conn0.domnode9").map (·.walker) = some "conn0.domwalker7" ∧
      t.known? "conn0.domwalker7" 2 = none ∧ (t.node? "conn0.domnode9").isNone = true :=
  ⟨begun_joined lookout, by decide +kernel, by decide +kernel, by decide +kernel, by decide +kernel⟩

end Serve

end RemoteInspector
