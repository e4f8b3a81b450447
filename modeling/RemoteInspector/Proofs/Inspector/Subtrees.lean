import RemoteInspector.Proofs.Inspector.Orphans
/-!
What leaves with a node: the nodes that are found below it by known nodes. What is known below an unknown node, or
where a walk does not look, is left behind.
-/
namespace RemoteInspector

open Relation (ReflTransGen)

/-! ### Trees over all frames -/

namespace Dom

variable {d : Dom} {n p : NodeId}

/-- Links that agree, and no way up that runs in a circle over the frames. -/
@[mk_iff] structure Grounded (d : Dom) : Prop extends Framed d where
  grounded : ∀ e ∈ d.nodes, d.above d.nodes.length e.1 = none

instance (d : Dom) : Decidable d.Grounded := decidable_of_iff _ (grounded_iff d).symm

theorem node_of_up (link : d.up n = some p) : ∃ node, d.node? n = some node := by
  unfold up at link
  cases parent : d.parent? n with
  | some q =>
    obtain ⟨node, found, -⟩ := parent?_eq_some.mp parent
    exact ⟨node, found⟩
  | none =>
    rw [parent] at link
    dsimp only at link
    split at link
    · rename_i document
      obtain ⟨node, found, -⟩ := isDocument_iff.mp document
      exact ⟨node, found⟩
    · cases link

theorem Grounded.depth_up (tree : d.Grounded) (link : d.up n = some p) : d.depth n = d.depth p + 1 := by
  obtain ⟨node, found⟩ := node_of_up link
  have ended : Climb.nth d.up d.nodes.length n = none := by
    rw [← above_eq]
    exact tree.grounded _ (tree.mem_nodes.mpr found)
  simp only [depth, climbed_eq, Climb.count_link ended link]

end Dom

/-! ### Actors leave and none come -/

def InspectorActor.keep (alive : List String) : Actor → Actor
  | .inspector i => .inspector { i with walkers := alive }
  | other => other

theorem Serve.after_walkers (s : Scene) (tab : TabId) : (walkers s tab).after s = s ∨
    ∃ name alive, (walkers s tab).after s = s.update name (InspectorActor.keep alive) := by
  unfold walkers
  split
  · unfold Inspector.walkers
    rw [Act.after_get_bind]
    split
    · exact .inl rfl
    · exact .inr ⟨_, _, rfl⟩
  · exact .inl rfl

namespace Scene

/-- Actors may have left and walkers may know less; names, trees and all else that was there are as they were. -/
structure Ebbs (s t : Scene) : Prop where
  valid : s.conn.registry.Valid s.conn.id → t.conn.registry.Valid t.conn.id
  goes : s.Goes t
  continues : s.Continues false t
  next : t.conn.registry.next = s.conn.registry.next
  dom : ∀ host, t.site.dom host = s.site.dom host

namespace Ebbs

variable {s t u : Scene}

theorem refl (s : Scene) : s.Ebbs s := ⟨id, .refl s, .refl s, rfl, fun _ => rfl⟩

theorem trans (first : s.Ebbs t) (next : t.Ebbs u) : s.Ebbs u where
  valid := next.valid ∘ first.valid
  goes := first.goes.trans next.goes
  continues := first.continues.trans next.continues
  next := next.next.trans first.next
  dom host := (next.dom host).trans (first.dom host)

theorem write (s : Scene) (packet : Json) : s.Ebbs (s.write packet) := by
  have spares : Walker.Spares "" (fun _ => False) s (s.write packet) := .write s packet
  exact ⟨spares.valid, Scene.lasting.write s packet, Continues.lasting.write s packet, by rw [registry_write],
    spares.doms⟩

theorem release (s : Scene) (name : String) : s.Ebbs (s.release name) where
  valid valid := by
    rw [(Silent.release s name).id]
    exact release_valid valid name
  goes := .release s name
  continues := Continues.lasting.release s name
  next := next_release s name
  dom := (release_unmoved s name).dom

theorem updateWalker {walker : String} {f : WalkerActor → WalkerActor} (same : ∀ w, (f w).known = w.known)
    (goes : s.Goes ((Act.updateWalker walker f).after s))
    (continues : s.Continues false ((Act.updateWalker walker f).after s)) :
    s.Ebbs ((Act.updateWalker walker f).after s) := by
  have spares : Walker.Spares walker (fun _ => False) s ((Act.updateWalker walker f).after s) := .updateWalker s same
  exact ⟨spares.valid, goes, continues, rfl, spares.doms⟩

theorem setQueue (s : Scene) (walker : String) (f : List Mutation → List Mutation) :
    s.Ebbs ((Act.updateWalker walker fun w => { w with queue := f w.queue }).after s) :=
  updateWalker (fun _ => rfl) (Scene.lasting.queue walker f s trivial) (Continues.lasting.queue walker f s trivial)

theorem law : Act.Law (Act.Keeps (fun _ => True) Ebbs) := Act.keeps_law (fun s _ => refl s) trans fun _ _ => trivial

theorem queue (walker : String) (w : WalkerActor) (records : List Mutation) :
    Act.Keeps (fun _ => True) Ebbs (Walker.queue walker w records) :=
  Walker.queue_law law w (fun s _ => setQueue s walker (· ++ records)) fun s _ => write s _

theorem releaseNode (walker host name : String) :
    Act.Keeps (fun _ => True) Ebbs (Walker.releaseNode walker host name) :=
  Walker.releaseNode_law law (fun s _ => refl s) (fun name s _ => release s name) walker host name

theorem onDocumentUnload (walker : String) (document : NodeId) :
    Act.Keeps (fun _ => True) Ebbs (Walker.onDocumentUnload walker document) :=
  Walker.onDocumentUnload_law law (fun s _ => refl s) (queue walker) document (releaseNode walker)

theorem walkers (tab : TabId) (s : Scene) :
    s.Ebbs ((Serve.walkers s tab).after s) ∧ ∀ own, ((Serve.walkers s tab).after s).walker? own = s.walker? own := by
  have goes : s.Goes ((Serve.walkers s tab).after s) := Scene.lasting.deeds.walkers s tab s trivial
  have continues : s.Continues false ((Serve.walkers s tab).after s) := Continues.lasting.deeds.walkers s tab s trivial
  rcases Serve.after_walkers s tab with same | ⟨name, alive, after⟩
  · rw [same]
    exact ⟨refl s, fun _ => rfl⟩
  · rw [after] at goes continues ⊢
    refine ⟨⟨fun valid => valid.update_alike fun e _ _ => ?_, goes, continues, rfl, fun _ => rfl⟩, fun own => ?_⟩
    · cases e.actor <;> exact ⟨rfl, rfl, List.Subset.refl _⟩
    · rw [walker?, walker?, find?_update]
      cases s.find? own with
      | none => rfl
      | some a =>
        rw [Option.map_some]
        split
        · cases a <;> rfl
        · rfl

end Ebbs

end Scene

/-! ### Known nodes below one another -/

namespace Scene

variable {s : Scene} {own : String} {d : Dom} {m n c p : NodeId}

/-- A walk that looks below one node finds another, and the walker knows that one. -/
def Linked (s : Scene) (own : String) (d : Dom) (c p : NodeId) : Prop := c ∈ Walk.below d .all p ∧ s.Knows own c

/-- Known nodes lead from a node up to another. -/
def Hangs (s : Scene) (own : String) (d : Dom) : NodeId → NodeId → Prop := ReflTransGen (s.Linked own d)

theorem hangs_of_under (framed : d.Framed) (linked : ∀ m, d.Under m n → m ≠ n → s.Knows own m →
    ∃ p, s.Linked own d m p ∧ s.Knows own p) (under : d.Under m n) (known : s.Knows own m) : s.Hangs own d m n := by
  induction under using ReflTransGen.head_induction_on with
  | refl => exact .refl
  | @head m p link rest ih =>
    by_cases same : m = n
    · subst same
      exact .refl
    · obtain ⟨q, linked, above⟩ := linked m (.head link rest) same known
      cases link.symm.trans (Walk.up_of_below framed linked.1)
      exact .head linked (ih above)

end Scene

/-! ### Letting go -/

namespace Scene

variable {s t : Scene} {own name : String} {n : NodeId}

/-- A scene in which names last, and walkers and the nodes they made agree. -/
structure Settled (s : Scene) : Prop where
  valid : s.conn.registry.Valid s.conn.id
  paired : s.Paired
  few : s.conn.registry.next ≤ UInt32.size

theorem Ebbs.settled (ebbs : s.Ebbs t) (settled : s.Settled) : t.Settled := by
  have few : t.Few := by
    rw [Scene.Few, ebbs.next]
    exact settled.few
  exact ⟨ebbs.valid settled.valid, Moves.paired (ebbs.goes settled.paired.given).1 few settled.paired, few⟩

theorem Ebbs.lets (ebbs : s.Ebbs t) (settled : s.Settled) (known : s.known? own n = some name) :
    Walker.Lets (· = n) t name := by
  intro a found
  obtain ⟨actor, tied, _, node⟩ := (settled.paired.stands_iff (walker_of_known known)).mp known
  have heir := ebbs.continues.heir (ebbs.settled settled).few settled.valid (tie?_eq_node.mp tied) found
  exact ⟨actor, Actor.seen_eq_node heir, node⟩

theorem Settled.node (settled : s.Settled) (known : s.known? own n = some name) :
    ∃ actor : NodeActor, s.find? name = some (.node actor) ∧ actor.node = n := by
  obtain ⟨actor, tied, _, node⟩ := (settled.paired.stands_iff (walker_of_known known)).mp known
  exact ⟨actor, tie?_eq_node.mp tied, node⟩

theorem Settled.released (settled : s.Settled) (lets : Walker.Lets (· = n) s name) {actor : NodeActor} :
    (s.release name).find? name ≠ some (.node actor) := by
  cases found : s.find? name with
  | none =>
    rw [release_absent settled.valid found, found]
    exact nofun
  | some a =>
    obtain ⟨actor', rfl, _⟩ := lets a found
    exact fun there => ((find?_release_node settled.valid found).mp there).1 rfl

theorem Settled.walker_release (settled : s.Settled) (lets : Walker.Lets (· = n) s name) {w : WalkerActor}
    (live : s.find? own = some (.walker w)) :
    ∃ w', (s.release name).find? own = some (.walker w') ∧ w'.host = w.host := by
  cases found : s.find? name with
  | none =>
    rw [release_absent settled.valid found]
    exact ⟨w, live, rfl⟩
  | some a =>
    obtain ⟨actor, rfl, _⟩ := lets a found
    obtain ⟨owned, low, find⟩ := release_node settled.valid found
    have stays : ¬ (own = name ∨ own ∈ owned) := by
      rintro (rfl | member)
      · cases live.symm.trans found
      · exact absurd (low own member _ live) (by simp [Actor.rank])
    rw [find, if_neg stays, live, Option.map_some]
    split
    · exact ⟨w.forget actor.node name, rfl, rfl⟩
    · exact ⟨w, rfl, rfl⟩

end Scene

namespace Walker

variable {walker : String}

open Scene (Ebbs Settled)

variable {s t u : Scene} {own host name : String} {d : Dom} {gone : NodeId → Prop} {w : WalkerActor} {n c p : NodeId}

/-- A walker has let go of some nodes only, and of none without those that are linked to it. -/
structure Sweeps (own host : String) (d : Dom) (gone : NodeId → Prop) (s t : Scene) : Prop where
  ebbs : s.Ebbs t
  live : ∃ w, t.find? own = some (.walker w) ∧ w.host = host
  known : ∀ {n name}, t.known? own n = some name → s.known? own n = some name
  kept : ∀ {n}, ¬ gone n → t.known? own n = s.known? own n
  shut : ∀ {c p}, s.Linked own d c p → s.Knows own p → ¬ t.Knows own p → ¬ t.Knows own c

namespace Sweeps

theorem refl (live : s.find? own = some (.walker w)) : Sweeps own w.host d gone s s where
  ebbs := .refl s
  live := ⟨w, live, rfl⟩
  known := id
  kept _ := rfl
  shut _ known left := absurd known left

theorem forgets (sweeps : Sweeps own host d gone s t) (known : s.Knows own n) (left : ¬ t.Knows own n)
    {m : NodeId} (hangs : s.Hangs own d m n) : ¬ t.Knows own m := by
  induction hangs using ReflTransGen.head_induction_on with
  | refl => exact left
  | @head m p linked rest ih =>
    have above : s.Knows own p := by
      rcases ReflTransGen.cases_head rest with rfl | ⟨_, linked', _⟩
      · exact known
      · exact linked'.2
    exact sweeps.shut linked above ih

end Sweeps

structure Drops (own host : String) (d : Dom) (gone : NodeId → Prop) (s t u : Scene) (out : NodeId → Prop) : Prop where
  sweeps : Sweeps own host d gone s u
  fewer : ∀ {m}, u.Knows own m → t.Knows own m
  left : ∀ {m}, out m → ¬ u.Knows own m

namespace Drops

variable {out out' : NodeId → Prop} {v : Scene}

theorem idle (sweeps : Sweeps own host d gone s t) (left : ∀ {m}, out m → ¬ t.Knows own m) :
    Drops own host d gone s t t out := ⟨sweeps, id, left⟩

theorem trans (first : Drops own host d gone s t u out) (next : Drops own host d gone s u v out') :
    Drops own host d gone s t v (fun m => out m ∨ out' m) where
  sweeps := next.sweeps
  fewer known := first.fewer (next.fewer known)
  left := by
    rintro m (early | late) known
    · exact first.left early (next.fewer known)
    · exact next.left late known

theorem mono (drops : Drops own host d gone s t u out) (less : ∀ m, out' m → out m) :
    Drops own host d gone s t u out' := ⟨drops.sweeps, drops.fewer, fun leaves => drops.left (less _ leaves)⟩

end Drops

theorem forM_drops {α : Type} {act : α → Act PUnit} (out : α → NodeId → Prop) {items : List α}
    (each : ∀ a ∈ items, ∀ {t}, Sweeps own host d gone s t → Drops own host d gone s t ((act a).after t) (out a))
    (first : Sweeps own host d gone s t) :
    Drops own host d gone s t ((items.forM act).after t) (fun m => ∃ a ∈ items, out a m) := by
  induction items generalizing t with
  | nil => exact .idle first (by simp)
  | cons a rest ih =>
    have one := each a List.mem_cons_self first
    have others := ih (fun b member => each b (List.mem_cons_of_mem _ member)) one.sweeps
    have after : ((a :: rest).forM act).after t = (rest.forM act).after ((act a).after t) := by simp
    rw [after]
    exact (one.trans others).mono (by simp)

theorem Sweeps.passes (sweeps : Sweeps own host d gone s t) (ebbs : t.Ebbs u)
    (same : ∀ {w}, t.find? own = some (.walker w) →
      ∃ w', u.find? own = some (.walker w') ∧ w'.host = w.host ∧ w'.known = w.known) :
    Drops own host d gone s t u (fun _ => False) := by
  obtain ⟨w, live, here⟩ := sweeps.live
  obtain ⟨w', live', here', known'⟩ := same live
  have look (n : NodeId) : u.known? own n = t.known? own n := by
    rw [Scene.known?_of_walker live', Scene.known?_of_walker live, known']
  refine ⟨⟨sweeps.ebbs.trans ebbs, ⟨w', live', here'.trans here⟩, fun known => ?_, fun stays => ?_,
    fun linked known left => ?_⟩, fun {m} known => ?_, False.elim⟩
  · exact sweeps.known ((look _).symm.trans known)
  · exact (look _).trans (sweeps.kept stays)
  · rw [Scene.Knows, look] at left ⊢
    exact sweeps.shut linked known left
  · rwa [Scene.Knows, look] at known

theorem Drops.write {out : NodeId → Prop} (drops : Drops own host d gone s t u out) (packet : Json) :
    Drops own host d gone s t (u.write packet) out := by
  have written := drops.sweeps.passes (.write u packet) fun {w} live => by
    exact ⟨w, (Scene.find?_write u packet own).trans live, rfl, rfl⟩
  exact (drops.trans written).mono fun _ => .inl

section

variable (settled : s.Settled) (sweeps : Sweeps own host d gone s t)

include settled sweeps

/-- A node is released when nothing is left that is linked to it. -/
theorem Sweeps.release (known : s.known? own n = some name) (goes : gone n)
    (bare : ∀ {c}, s.Linked own d c n → ¬ t.Knows own c) : Drops own host d gone s t (t.release name) (· = n) := by
  have settled' := sweeps.ebbs.settled settled
  have lets := sweeps.ebbs.lets settled known
  have spares : Spares own (· = n) t (t.release name) := release_spares settled'.valid lets
  have released : t.Ebbs (t.release name) := .release t name
  have fewer {m : NodeId} (there : (t.release name).Knows own m) : t.Knows own m := by
    obtain ⟨x, look⟩ := Option.isSome_iff_exists.mp there
    rw [Scene.Knows, spares.known look]
    rfl
  have left : ¬ (t.release name).Knows own n := by
    intro there
    obtain ⟨x, look⟩ := Option.isSome_iff_exists.mp there
    cases (sweeps.known (spares.known look)).symm.trans known
    obtain ⟨actor, found, _⟩ := (released.settled settled').node look
    exact settled'.released lets found
  refine ⟨⟨sweeps.ebbs.trans released, ?_, fun look => sweeps.known (spares.known look), fun {m} stays => ?_,
    fun {c p} linked above gone there => ?_⟩, fewer, fun same => same ▸ left⟩
  · obtain ⟨w, live, here⟩ := sweeps.live
    obtain ⟨w', live', here'⟩ := settled'.walker_release lets live
    exact ⟨w', live', here'.trans here⟩
  · have other : m ≠ n := by
      rintro rfl
      exact stays goes
    rw [spares.kept other, sweeps.kept stays]
  · by_cases same : p = n
    · subst same
      exact bare linked (fewer there)
    · rw [Scene.Knows, spares.kept same] at gone
      exact sweeps.shut linked above gone (fewer there)

end

section

variable (settled : s.Settled) (tree : d.Grounded) (dom : s.site.dom host = d)
variable (closed : ∀ {c p}, s.Linked own d c p → gone p → gone c)

include settled tree dom closed

/-- A node is let go with what is linked to it, down to the bottom of the tree. -/
theorem Sweeps.releaseBelow {fuel : Nat} (sweeps : Sweeps own host d gone s t) (known : s.known? own n = some name)
    (goes : gone n) (enough : d.nodes.length < fuel + d.depth n) :
    Drops own host d gone s t ((releaseBelow own host fuel name).after t) (· = n) := by
  induction fuel generalizing t n name with
  | zero => exact absurd (d.depth_le n) (by omega)
  | succ fuel ih =>
    have settled' := sweeps.ebbs.settled settled
    cases live : t.node? name with
    | none =>
      have skip : (Walker.releaseBelow own host (fuel + 1) name).after t = t := by
        rw [Walker.releaseBelow, Act.after_get_bind, live]
        rfl
      rw [skip]
      refine .idle sweeps ?_
      rintro _ rfl there
      obtain ⟨x, look⟩ := Option.isSome_iff_exists.mp there
      cases (sweeps.known look).symm.trans known
      obtain ⟨actor, found, _⟩ := settled'.node look
      cases live.symm.trans (Scene.node?_eq_some.mpr found)
    | some actor =>
      obtain ⟨_, same, node⟩ := sweeps.ebbs.lets settled known _ (Scene.node?_eq_some.mp live)
      cases same
      have here : t.site.dom host = d := (sweeps.ebbs.dom host).trans dom
      rw [after_releaseBelow live, here, node]
      have each (c : NodeId) (member : c ∈ Walk.below d .all n) {t : Scene}
          (sweeps : Sweeps own host d gone s t) :
          Drops own host d gone s t ((visit own host fuel c).after t) (· = c) := by
        cases look : t.known? own c with
        | none =>
          have skip : (visit own host fuel c).after t = t := by simp [visit, look]
          rw [skip]
          exact .idle sweeps (by simp [Scene.Knows, look])
        | some below =>
          have visits : (visit own host fuel c).after t = (Walker.releaseBelow own host fuel below).after t := by
            simp [visit, look]
          rw [visits]
          have known := sweeps.known look
          have linked : s.Linked own d c n := ⟨member, by simp [Scene.Knows, known]⟩
          have deeper := tree.depth_up (Walk.up_of_below tree.toFramed member)
          exact ih sweeps known (closed linked goes) (by omega)
      have loop := forM_drops (fun c m => m = c) each sweeps
      have last := loop.sweeps.release settled known goes fun {c} linked => loop.left ⟨c, linked.1, rfl⟩
      exact (loop.trans last).mono fun _ => .inr

theorem Sweeps.releaseNode (sweeps : Sweeps own host d gone s t) (known : s.known? own n = some name)
    (goes : gone n) : Drops own host d gone s t ((releaseNode own host name).after t) (· = n) := by
  have here : t.site.dom host = d := (sweeps.ebbs.dom host).trans dom
  have enough : d.nodes.length < d.reach + d.depth n := Nat.lt_of_lt_of_le d.nodes_lt_reach (Nat.le_add_right _ _)
  rw [Walker.releaseNode, Act.after_get_bind, here]
  exact sweeps.releaseBelow settled tree dom closed known goes enough

theorem Sweeps.takeMutations (sweeps : Sweeps own host d gone s s) (live : s.find? own = some (.walker w))
    (here : w.host = host) (goes : ∀ {n}, s.Orphaned own n → gone n) :
    Drops own host d gone s s ((takeMutations own w true).after s) (s.Orphaned own) := by
  have fetched := sweeps.passes (.setQueue s own fun _ => []) fun {w} live => by
    exact ⟨{ w with queue := [] }, by simp [after_updateWalker, live], rfl, rfl⟩
  have emptied := fetched.sweeps.passes (u := Walker.emptied s own)
    (.updateWalker (fun _ => rfl) (emptied_goes own) (Scene.Continues.lasting.deeds.orphans own _ trivial))
    fun {w} live => ⟨{ w with orphans := [] }, by simp [Walker.emptied, after_updateWalker, live], rfl, rfl⟩
  have marked (name : String) (member : name ∈ w.orphans) : name ∈ s.orphans own := by
    rw [Scene.orphans, live]
    exact member
  have each (name : String) (member : name ∈ w.orphans) {t : Scene} (sweeps : Sweeps own host d gone s t) :
      Drops own host d gone s t ((Walker.releaseNode own w.host name).after t) (s.known? own · = some name) := by
    obtain ⟨x, known, _⟩ := settled.paired.orphan_known (marked name member)
    rw [here]
    refine (sweeps.releaseNode settled tree dom closed known (goes ⟨name, known, marked name member⟩)).mono ?_
    intro y same
    rw [Scene.known?_of_walker live] at known same
    exact settled.paired.distinct live same known
  rw [after_takeMutations]
  refine ((fetched.trans emptied).trans (forM_drops _ each emptied.sweeps)).mono fun m orphaned => .inr ?_
  obtain ⟨name, known, member⟩ := orphaned
  rw [Scene.orphans, live] at member
  exact ⟨name, member, known⟩

end

/-! ### The ways to let go -/

def CleansUp (packet : Fields) : Prop :=
  packet.get? "type" = some (.str "getMutations") ∧ packet.get? "cleanup" = some (.bool true)

theorem handle_cleansUp {packet : Fields} (live : s.find? own = some (.walker w))
    (addressed : packet.get? "to" = some (.str own)) (cleansUp : CleansUp packet) :
    ∃ answer, (Request.handle s packet).1 = ((takeMutations own w true).after s).write answer := by
  obtain ⟨typed, given⟩ := cleansUp
  let method : Method :=
    { name := "getMutations", request := [Schema.option "cleanup" .boolean]
      response := [("mutations", .array Schema.domMutation)] }
  have checked : (Actor.walker w).schema.check method.name packet = .ok method := by
    have listed : Schema.walker.method? method.name = some method := by simp [Schema.method?, Schema.walker, method]
    refine Schema.check_of listed ?_
    change ((Schema.option "cleanup" .boolean).check packet >>= fun _ => pure ()) = _
    rw [Parameter.check, Schema.option, given]
    rfl
  have accepted : decide s own w method.name packet = .ok (do
      let records ← takeMutations own w true
      return [("mutations", .arr (records.map Mutation.toJson))]) := by
    simp only [method, decide, given]
    rfl
  exact ⟨_, congrArg Prod.fst (Request.handle_decided addressed live typed checked rfl accepted)⟩

/-- The ways in which a walker lets nodes of its own go: a packet asks for one, or for the orphans, or the host
tells of a document that it is unloaded. -/
inductive Dismisses (own : String) (s : Scene) : (NodeId → Prop) → Scene → Prop
  | asked {packet : Fields} {name : String} {n : NodeId} : packet.get? "to" = some (.str own) →
      Releases packet name → s.Stands own name n → Dismisses own s (· = n) (Request.handle s packet).1
  | cleanup {packet : Fields} : packet.get? "to" = some (.str own) → CleansUp packet →
      Dismisses own s (s.Orphaned own) (Request.handle s packet).1
  | unload {tab : TabId} {document : NodeId} : own ∈ (Serve.walkers s tab).result s → s.Knows own document →
      Dismisses own s (· = document) ((Serve.follow s (.documentUnload tab document)).after s)

/-! ### Unloading -/

theorem walker_queue (walker : String) (v : WalkerActor) (records : List Mutation)
    (live : t.find? own = some (.walker w)) : ∃ w', ((queue walker v records).after t).find? own = some (.walker w') ∧
      w'.host = w.host ∧ w'.known = w.known := by
  unfold queue
  split
  · exact ⟨w, live, rfl, rfl⟩
  · have queued : ∃ w', ((Act.updateWalker walker fun w => { w with queue := w.queue ++ records }).after t).find? own =
        some (.walker w') ∧ w'.host = w.host ∧ w'.known = w.known := by
      rw [after_updateWalker, live, Option.map_some]
      split
      · exact ⟨_, rfl, rfl, rfl⟩
      · exact ⟨w, rfl, rfl, rfl⟩
    rw [Act.after_bind]
    split
    · rw [Act.after_event, Scene.find?_write]
      exact queued
    · exact queued

theorem onDocumentUnload_known {target : String} {v : WalkerActor} (live : t.find? walker = some (.walker v))
    (known : v.known.get? n = some target) : (onDocumentUnload walker n).after t =
      (releaseNode walker v.host target).after ((queue walker v [.documentUnload target]).after t) := by
  rw [onDocumentUnload, Act.after_get_bind, Scene.walker?_eq_some.mpr live]
  dsimp only
  rw [known, Act.after_bind]

theorem onDocumentUnload_unknown (unknown : ¬ t.Knows walker n) : (onDocumentUnload walker n).after t = t := by
  rw [onDocumentUnload, Act.after_get_bind]
  split
  · rfl
  · rename_i v live
    have none : v.known.get? n = none := by
      simpa [Scene.Knows, Scene.known?_of_walker (Scene.walker?_eq_some.mp live)] using unknown
    rw [none]
    rfl

theorem unload_aside (settled : t.Settled) (apart : own ≠ walker) (live : t.find? own = some (.walker w)) (n : NodeId) :
    ∃ w',
    ((onDocumentUnload walker n).after t).find? own = some (.walker w') ∧ w'.host = w.host ∧ w'.known = w.known := by
  by_cases known : t.Knows walker n
  · obtain ⟨target, look⟩ := Option.isSome_iff_exists.mp known
    obtain ⟨v, there⟩ := Scene.walker_of_known look
    rw [Scene.known?_of_walker there] at look
    rw [onDocumentUnload_known there look]
    let mid := (queue walker v [.documentUnload target]).after t
    have ebbs : t.Ebbs mid := Ebbs.queue walker v [.documentUnload target] t trivial
    obtain ⟨v', there', _, look'⟩ := walker_queue walker v [.documentUnload target] there
    obtain ⟨w', live', here', known'⟩ := walker_queue walker v [.documentUnload target] live
    have settled' := ebbs.settled settled
    obtain ⟨tidy, -⟩ := tidy_of_paired settled'.paired settled'.valid there'
    rw [← look', ← Scene.known?_of_walker there'] at look
    obtain ⟨actor, tied, made, _⟩ := (settled'.paired.stands_iff ⟨v', there'⟩).mp look
    have released := Ebbs.releaseNode walker v.host target mid trivial
    have untouched := releaseNode_untouched tidy apart live' (Scene.tie?_eq_node.mp tied) (made ▸ apart.symm)
      (released.settled settled').few
    exact ⟨w', untouched.walker.trans live', here', known'⟩
  · rw [onDocumentUnload_unknown known]
    exact ⟨w, live, rfl, rfl⟩

section

variable (settled : s.Settled) (tree : d.Grounded) (dom : s.site.dom host = d)
variable (closed : ∀ {c p}, s.Linked own d c p → gone p → gone c)

include settled tree dom closed

theorem Sweeps.unload (walker : String) (sweeps : Sweeps own host d gone s t) (goes : gone n) :
    Drops own host d gone s t ((onDocumentUnload walker n).after t) (fun m => walker = own ∧ m = n) := by
  by_cases self : walker = own
  · subst self
    by_cases known : t.Knows walker n
    · obtain ⟨target, look⟩ := Option.isSome_iff_exists.mp known
      obtain ⟨w, live, here⟩ := sweeps.live
      have base := sweeps.known look
      rw [Scene.known?_of_walker live] at look
      rw [onDocumentUnload_known live look, here]
      have queued := sweeps.passes (Ebbs.queue walker w [.documentUnload target] t trivial) (walker_queue _ _ _)
      have released := queued.sweeps.releaseNode settled tree dom closed base goes
      exact (queued.trans released).mono fun m leaves => .inr leaves.2
    · rw [onDocumentUnload_unknown known]
      refine .idle sweeps ?_
      rintro _ ⟨-, rfl⟩
      exact known
  · have aside := sweeps.passes (Ebbs.onDocumentUnload walker n t trivial)
      fun live => unload_aside (sweeps.ebbs.settled settled) (Ne.symm self) live n
    exact aside.mono fun m leaves => self leaves.1

end

/-! ### Each way -/

section

variable {tops : NodeId → Prop} (dismisses : Dismisses own s tops t) (settled : s.Settled)
  (live : s.find? own = some (.walker w))

include dismisses settled live

theorem Dismisses.drops (tree : (s.site.dom w.host).Grounded)
    (closed : ∀ {c p}, s.Linked own (s.site.dom w.host) c p → gone p → gone c) (goes : ∀ {n}, tops n → gone n) :
    Drops own w.host (s.site.dom w.host) gone s s t tops := by
  have still : Sweeps own w.host (s.site.dom w.host) gone s s := .refl live
  cases dismisses with
  | asked addressed releases stands =>
    have known := (settled.paired.stands_iff ⟨w, live⟩).mpr stands
    obtain ⟨actor, found, _⟩ := settled.node known
    obtain ⟨answer, handled⟩ := handle_releases live addressed releases found
    rw [handled]
    exact (still.releaseNode settled tree rfl closed known (goes rfl)).write answer
  | cleanup addressed cleansUp =>
    obtain ⟨answer, handled⟩ := handle_cleansUp live addressed cleansUp
    rw [handled]
    exact (still.takeMutations settled tree rfl closed live rfl goes).write answer
  | @unload tab document listed known =>
    obtain ⟨ebbs, same⟩ := Ebbs.walkers tab s
    have looked := still.passes ebbs fun {w} live =>
      ⟨w, Scene.walker?_eq_some.mp ((same own).trans (Scene.walker?_eq_some.mpr live)), rfl, rfl⟩
    have each (walker : String) (_ : walker ∈ (Serve.walkers s tab).result s) {t : Scene}
        (sweeps : Sweeps own w.host (s.site.dom w.host) gone s t) :
        Drops own w.host (s.site.dom w.host) gone s t ((onDocumentUnload walker document).after t)
          (fun m => walker = own ∧ m = document) :=
      sweeps.unload settled tree rfl closed walker (goes rfl)
    have loop := forM_drops _ each looked.sweeps
    rw [Serve.follow, Act.after_bind]
    exact (looked.trans loop).mono fun m same => .inr ⟨own, listed, rfl, same⟩

theorem Dismisses.knows (leaves : tops n) : s.Knows own n := by
  cases dismisses with
  | asked _ _ stands =>
    subst leaves
    simp [Scene.Knows, (settled.paired.stands_iff ⟨w, live⟩).mpr stands]
  | cleanup _ _ => exact leaves.knows
  | unload _ known =>
    subst leaves
    exact known

end

end Walker

namespace Serve

open Walker (Dismisses Releases)

variable {c : Connection}

/-- As long as the names last, whatever a connection has gone through, on a host whose tree is in order: when a
walker lets nodes of its own go, because a packet asks for one or for the orphans or because a document is unloaded,
then the nodes it stops knowing are those, and the known nodes from which known nodes lead up to them, each found by
a walk right below the next. It knows the others as before. So none is left of the nodes below the one let go, over
all frames, if a walk from a known node finds each that is known; and otherwise some may be. -/
theorem release_takes_hanging (begun : Begun c) (turns : List Turn) (site : Site)
    (few : (turns.foldl take c).registry.next ≤ UInt32.size) {own : String} {w : WalkerActor}
    (live : (turns.foldl take c).registry.find? own = some (.walker w)) (tree : (site.dom w.host).Grounded)
    {tops : NodeId → Prop} {t : Scene} (dismisses : Dismisses own ⟨site, turns.foldl take c⟩ tops t) :
    let s : Scene := ⟨site, turns.foldl take c⟩
    let d := site.dom w.host
    (∀ name m, t.Stands own name m ↔ s.Stands own name m ∧ ¬ ∃ n, tops n ∧ s.Hangs own d m n) ∧
    ∀ n, tops n → (∀ m, d.Under m n → m ≠ n → s.Knows own m → ∃ p, s.Linked own d m p ∧ s.Knows own p) →
      ∀ name m, d.Under m n → ¬ t.Stands own name m := by
  intro s d
  have before := foldl_take_later c turns
  have few_c : c.Few := Nat.le_trans before.later few
  have valid : s.Valid := (before.sound few (sound_of_begun begun few_c)).1.valid
  have settled : s.Settled := ⟨valid, paired_run turns few (paired_of_begun begun few_c), few⟩
  let gone (m : NodeId) : Prop := ∃ n, tops n ∧ s.Hangs own d m n
  have drops : Walker.Drops own w.host d gone s s t tops := dismisses.drops settled live tree
    (fun linked ⟨n, leaves, hangs⟩ => ⟨n, leaves, .head linked hangs⟩) fun {n} leaves => ⟨n, leaves, .refl⟩
  have settled' : t.Settled := drops.sweeps.ebbs.settled settled
  obtain ⟨w', live', _⟩ := drops.sweeps.live
  have stands_iff (name : String) (m : NodeId) : t.Stands own name m ↔ s.Stands own name m ∧ ¬ gone m := by
    rw [← settled'.paired.stands_iff ⟨w', live'⟩, ← settled.paired.stands_iff ⟨w, live⟩]
    constructor
    · intro known
      refine ⟨drops.sweeps.known known, fun ⟨n, leaves, hangs⟩ => ?_⟩
      have left := drops.sweeps.forgets (dismisses.knows settled live leaves) (drops.left leaves) hangs
      exact left (by simp [Scene.Knows, known])
    · rintro ⟨known, stays⟩
      rw [drops.sweeps.kept stays, known]
  refine ⟨stands_iff, fun n leaves linked name m under stands => ?_⟩
  obtain ⟨stood, stays⟩ := (stands_iff name m).mp stands
  have known : s.Knows own m := by simp [Scene.Knows, (settled.paired.stands_iff ⟨w, live⟩).mpr stood]
  exact stays ⟨n, leaves, Scene.hangs_of_under tree.toFramed linked under known⟩

namespace Leaving

def childrenOf (node : String) : Json :=
  .obj (request "conn0.domwalker5" "children" [("node", .str node)])

/-- The client asks for the document element, and for what is below the nodes it knows. -/
def looks (d : Dom) (nodes : List String) : List Turn :=
  ([Json.obj (request "conn0.inspector1" "getWalker" []), .obj (request "conn0.domwalker5" "documentElement" [])] ++
    nodes.map childrenOf).map fun packet => ⟨onePage d, .packet packet⟩

def releaseElement : Fields := request "conn0.domwalker5" "releaseNode" [("node", .str "conn0.domnode7")]

/-- A frame with a document of its own, and text in that. -/
def framed : Dom :=
  { nodes :=
      [(1, { kind := 9, children := [2] }), (2, { kind := 1, parent := some 1, children := [3] }),
        (3, { kind := 1, parent := some 2, content := some 4 }), (4, { kind := 9, children := [5] }),
        (5, { kind := 1, parent := some 4, children := [6] }), (6, { kind := 3, value := some "a", parent := some 5 })] }

def known : Scene :=
  ⟨onePage framed, (looks framed ["conn0.domnode7", "conn0.domnode8", "conn0.domnode9", "conn0.domnode10"]).foldl take
    (joined (onePage framed))⟩

def walker : WalkerActor :=
  { host := "host", root := 1, known := [(1, "conn0.domnode6"), (2, "conn0.domnode7"), (3, "conn0.domnode8"),
      (4, "conn0.domnode9"), (5, "conn0.domnode10"), (6, "conn0.domnode11")] }

theorem live : known.find? "conn0.domwalker5" = some (.walker walker) :=
  Scene.walker?_eq_some.mp (by decide +kernel)

theorem stands {s : Scene} {name : String} {n : NodeId}
    (there : s.node? name = some ⟨"host", "conn0.domwalker5", n, none⟩) : s.Stands "conn0.domwalker5" name n :=
  ⟨_, Scene.tie?_eq_node.mpr (Scene.node?_eq_some.mp there), rfl, rfl⟩

theorem dismisses {s : Scene} (there : s.node? "conn0.domnode7" = some ⟨"host", "conn0.domwalker5", 2, none⟩) :
    Dismisses "conn0.domwalker5" s (· = 2) (Request.handle s releaseElement).1 :=
  .asked rfl ⟨rfl, rfl⟩ (stands there)

theorem linked {m : NodeId} (under : framed.Under m 2) (other : m ≠ 2) (seen : known.Knows "conn0.domwalker5" m) :
    ∃ p, known.Linked "conn0.domwalker5" framed m p ∧ known.Knows "conn0.domwalker5" p := by
  have knows {n : NodeId} (there : (walker.known.get? n).isSome) : known.Knows "conn0.domwalker5" n := by
    rwa [Scene.Knows, Scene.known?_of_walker live]
  rw [Scene.Knows, Scene.known?_of_walker live] at seen
  obtain ⟨name, look⟩ := Option.isSome_iff_exists.mp seen
  have listed : m ∈ [1, 2, 3, 4, 5, 6] := List.mem_map_of_mem (f := Prod.fst) (Table.mem_of_get? look)
  simp only [List.mem_cons, List.not_mem_nil, or_false] at listed
  rcases listed with rfl | rfl | rfl | rfl | rfl | rfl
  · rcases under.cases_up with same | ⟨p, link, -⟩
    · cases same
    · have top : framed.up 1 = none := by decide +kernel
      cases top.symm.trans link
  · exact absurd rfl other
  · exact ⟨2, ⟨by decide +kernel, knows rfl⟩, knows rfl⟩
  · exact ⟨3, ⟨by decide +kernel, knows rfl⟩, knows rfl⟩
  · exact ⟨4, ⟨by decide +kernel, knows rfl⟩, knows rfl⟩
  · exact ⟨5, ⟨by decide +kernel, knows rfl⟩, knows rfl⟩

def filled : Dom :=
  { nodes :=
      [(1, { kind := 9, children := [2] }), (2, { kind := 1, parent := some 1, children := [3] }),
        (3, { kind := 3, value := some "a", parent := some 2 })] }

def blank : Site := (onePage filled).edits "host" [.text 3 (some " ")]

def fades : List Turn :=
  looks filled ["conn0.domnode7"] ++ [⟨blank, .event (.changes "conn0.domwalker5" [.characterData 3])⟩]

def blanked : Scene := ⟨blank, fades.foldl take (joined (onePage filled))⟩

end Leaving

/-- The document element leaves with the frame in it and all that is known in the frame. -/
theorem release_takes_hanging_framed : ∃ t : Scene,
    Dismisses "conn0.domwalker5" Leaving.known (· = 2) t ∧
    Leaving.known.Stands "conn0.domwalker5" "conn0.domnode11" 6 ∧ Leaving.framed.Under 6 2 ∧
    ∀ name m, Leaving.framed.Under m 2 → ¬ t.Stands "conn0.domwalker5" name m := by
  have dismisses := Leaving.dismisses (s := Leaving.known) (by decide +kernel)
  have tree : ((onePage Leaving.framed).dom "host").Grounded := by decide +kernel
  have taken := release_takes_hanging (begun_joined (onePage Leaving.framed)) _ (onePage Leaving.framed)
    (by decide +kernel) Leaving.live tree dismisses
  have under : Leaving.framed.Under 6 2 :=
    .step (p := 5) (by decide +kernel) (.step (p := 4) (by decide +kernel)
      (.step (p := 3) (by decide +kernel) (.step (p := 2) (by decide +kernel) .refl)))
  exact ⟨_, dismisses, Leaving.stands (by decide +kernel), under, taken.2 2 rfl fun _ => Leaving.linked⟩

/-- Text that has become blank is left behind when the element around it leaves. -/
theorem blank_text_left_behind : ∃ (c : Connection) (turns : List Turn) (site : Site) (t : Scene),
    Begun c ∧ (site.dom "host").Grounded ∧
    Dismisses "conn0.domwalker5" ⟨site, turns.foldl take c⟩ (· = 2) t ∧
    (site.dom "host").Under 3 2 ∧ t.Stands "conn0.domwalker5" "conn0.domnode8" 3 := by
  refine ⟨_, _, _, _, begun_joined (onePage Leaving.filled), ?_, Leaving.dismisses (s := Leaving.blanked) ?_, ?_, ?_⟩
  · decide +kernel
  · decide +kernel
  · exact .step (p := 2) (by decide +kernel) .refl
  · exact Leaving.stands (by decide +kernel)

end Serve

end RemoteInspector
