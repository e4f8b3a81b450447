import RemoteInspector.Proofs.Inspector.Mindful
/-!
What a walker can lose by a release: nodes go with what the walker knows below them.
-/
namespace RemoteInspector

namespace Walker

variable {d : Dom} {s t u : Scene} {own host name : String} {w : WalkerActor} {n : NodeId} {gone : NodeId → Prop}

/-- Actors may have left, and the walker knows all it knew but for some nodes that are let go. -/
structure Spares (own : String) (gone : NodeId → Prop) (s t : Scene) : Prop where
  valid : s.conn.registry.Valid s.conn.id → t.conn.registry.Valid t.conn.id
  doms : ∀ host, t.site.dom host = s.site.dom host
  old : ∀ {x a}, t.find? x = some a → ∃ b, s.find? x = some b ∧ ∀ actor, b = .node actor → a = b
  known : ∀ {n name}, t.known? own n = some name → s.known? own n = some name
  kept : ∀ {n}, ¬ gone n → t.known? own n = s.known? own n

namespace Spares

theorem refl (s : Scene) : Spares own gone s s :=
  ⟨id, fun _ => rfl, fun {_ a} found => ⟨a, found, fun _ _ => rfl⟩, id, fun _ => rfl⟩

theorem trans (first : Spares own gone s t) (next : Spares own gone t u) : Spares own gone s u where
  valid := next.valid ∘ first.valid
  doms host := (next.doms host).trans (first.doms host)
  old found := by
    obtain ⟨b, there, same⟩ := next.old found
    obtain ⟨c, before, same'⟩ := first.old there
    refine ⟨c, before, fun actor node => ?_⟩
    cases same' actor node
    exact same actor node
  known look := first.known (next.known look)
  kept stays := (next.kept stays).trans (first.kept stays)

theorem write (s : Scene) (packet : Json) : Spares own gone s (s.write packet) := by
  have registry : (s.write packet).conn.registry = s.conn.registry ∧ (s.write packet).conn.id = s.conn.id := by
    unfold Scene.write
    split <;> exact ⟨rfl, rfl⟩
  have site : (s.write packet).site = s.site := by
    unfold Scene.write
    split <;> rfl
  have find (x : String) : (s.write packet).find? x = s.find? x := by rw [Scene.find?, registry.1, Scene.find?]
  have known (n : NodeId) : (s.write packet).known? own n = s.known? own n := by
    rw [Scene.known?, Scene.known?, Scene.walker?, Scene.walker?, find]
  refine ⟨fun valid => ?_, fun host => ?_, fun {x a} found => ⟨a, find x ▸ found, fun _ _ => rfl⟩, fun look => ?_,
    fun _ => known _⟩
  · rw [registry.1, registry.2]
    exact valid
  · rw [site]
  · rwa [known] at look

theorem updateWalker (s : Scene) {f : WalkerActor → WalkerActor} (same : ∀ w, (f w).known = w.known) :
    Spares own gone s ((Act.updateWalker own f).after s) := by
  have known (n : NodeId) : ((Act.updateWalker own f).after s).known? own n = s.known? own n := by
    rw [Scene.known?, Scene.known?, Scene.walker?, Scene.walker?, after_updateWalker]
    cases s.find? own with
    | none => rfl
    | some a =>
      cases a with
      | walker w => simp [Actor.walker?, same]
      | _ => simp [Actor.walker?]
  refine ⟨fun valid => ?_, fun _ => rfl, fun {x a} found => ?_, fun look => known _ ▸ look, fun _ => known _⟩
  · exact valid_updateWalker valid own f
  · rw [after_updateWalker] at found
    obtain ⟨b, there, rfl⟩ := Option.map_eq_some_iff.mp found
    refine ⟨b, there, fun actor node => ?_⟩
    rw [node]
    split <;> rfl

end Spares

/-! ### One actor leaves -/

def Lets (gone : NodeId → Prop) (s : Scene) (name : String) : Prop :=
  ∀ a, s.find? name = some a → ∃ actor, a = .node actor ∧ gone actor.node

theorem Spares.lets (spares : Spares own gone s t) (lets : Lets gone s name) : Lets gone t name := by
  intro a found
  obtain ⟨b, before, same⟩ := spares.old found
  obtain ⟨actor, node, goes⟩ := lets b before
  exact ⟨actor, (same actor node).trans node, goes⟩

theorem get?_forget (w : WalkerActor) (node n : NodeId) (name : String) :
    (w.forget node name).known.get? n = if node = n ∧ w.known.get? node = some name then none else w.known.get? n := by
  unfold WalkerActor.forget
  by_cases named : w.known.get? node = some name
  · simp [named, Table.get?_erase]
  · simp [named]

theorem release_spares (valid : s.Valid) (lets : Lets gone s name) : Spares own gone s (s.release name) := by
  cases found : s.find? name with
  | none =>
    rw [Scene.release_absent valid found]
    exact .refl s
  | some a =>
    obtain ⟨actor, rfl, goes⟩ := lets a found
    obtain ⟨owned, low, find⟩ := Scene.release_node valid found
    -- What the walker knows afterwards, if it is one.
    have look (n : NodeId) : (s.release name).known? own n = s.known? own n ∨
        actor.node = n ∧ (s.release name).known? own n = none := by
      rw [Scene.known?, Scene.known?, Scene.walker?, Scene.walker?, find]
      cases there : s.find? own with
      | none => simp
      | some b =>
        cases b with
        | walker w =>
          have other : own ≠ name := by
            rintro rfl
            cases there.symm.trans found
          have high : own ∉ owned := fun member => absurd (low own member _ there) (by simp [Actor.rank])
          by_cases here : own = actor.walker
          · have forget : (Actor.walker w).forget actor.node name = .walker (w.forget actor.node name) := rfl
            simp only [other, high, or_self, if_false, Option.map_some, ← here, if_true, forget,
              Actor.walker?, Option.bind_some, get?_forget]
            by_cases same : actor.node = n ∧ w.known.get? actor.node = some name
            · exact .inr ⟨same.1, if_pos same⟩
            · exact .inl (if_neg same)
          · simp [other, high, here, Actor.walker?]
        | _ =>
          refine .inl ?_
          split
          · rfl
          · simp [Actor.walker?, Actor.forget]
    refine ⟨fun _ => ?_, (Scene.release_unmoved s name).dom, fun {x b} there => ?_, fun {n x} known => ?_,
      fun {n} stays => ?_⟩
    · rw [(Scene.Silent.release s name).id]
      exact Scene.release_valid valid name
    · rw [find] at there
      split at there
      · cases there
      · obtain ⟨c, before, rfl⟩ := Option.map_eq_some_iff.mp there
        refine ⟨c, before, fun actor' node => ?_⟩
        rw [node]
        split <;> rfl
    · rcases look n with same | ⟨_, none⟩
      · exact same ▸ known
      · rw [none] at known
        cases known
    · rcases look n with same | ⟨rfl, _⟩
      · exact same
      · exact absurd goes stays

/-! ### Everything below leaves first -/

/-- A walker that looks into a tree, with names for the nodes it knows that stand for no others. -/
structure Fair (own host : String) (d : Dom) (s : Scene) : Prop where
  valid : s.conn.registry.Valid s.conn.id
  dom : s.site.dom host = d
  stands : ∀ {n name a}, s.known? own n = some name → s.find? name = some a →
    ∃ actor, a = .node actor ∧ actor.node = n

theorem Fair.spares (fair : Fair own host d s) (spares : Spares own gone s t) : Fair own host d t where
  valid := spares.valid fair.valid
  dom := (spares.doms host).trans fair.dom
  stands known found := by
    obtain ⟨b, before, same⟩ := spares.old found
    obtain ⟨actor, node, same'⟩ := fair.stands (spares.known known) before
    exact ⟨actor, (same actor node).trans node, same'⟩

theorem forM_spares {α : Type} {act : α → Act PUnit} {items : List α}
    (each : ∀ a ∈ items, ∀ {t}, Spares own gone s t → Spares own gone t ((act a).after t))
    (first : Spares own gone s t) : Spares own gone s ((items.forM act).after t) := by
  induction items generalizing t with
  | nil => exact first
  | cons a rest ih =>
    have next := ih (fun b member => each b (List.mem_cons_of_mem _ member))
      (first.trans (each a List.mem_cons_self first))
    simpa using next

section

variable (closed : ∀ n c, gone n → c ∈ Walk.below d .all n → gone c)

include closed

/-- Nodes let go are released with what is below them, where that is let go too. -/
theorem releaseBelow_spares (fuel : Nat) (fair : Fair own host d s) (lets : Lets gone s name) :
    Spares own gone s ((releaseBelow own host fuel name).after s) := by
  induction fuel generalizing s name with
  | zero => exact .refl s
  | succ fuel ih =>
    cases live : s.node? name with
    | none =>
      rw [releaseBelow, Act.after_get_bind, live]
      exact .refl s
    | some actor =>
      obtain ⟨_, same, goes⟩ := lets _ (Scene.node?_eq_some.mp live)
      cases same
      rw [after_releaseBelow live, fair.dom]
      have each (c : NodeId) (member : c ∈ Walk.below d .all actor.node) {t : Scene}
          (spares : Spares own gone s t) : Spares own gone t ((visit own host fuel c).after t) := by
        have fair' := fair.spares spares
        cases look : t.known? own c with
        | none =>
          have skip : (visit own host fuel c).after t = t := by simp [visit, look]
          rw [skip]
          exact .refl t
        | some below =>
          have visits : (visit own host fuel c).after t = (releaseBelow own host fuel below).after t := by
            simp [visit, look]
          rw [visits]
          refine ih fair' fun a found => ?_
          obtain ⟨child, node, stands⟩ := fair'.stands look found
          exact ⟨child, node, stands ▸ closed _ c goes member⟩
      have loop := forM_spares each (.refl s)
      exact loop.trans (release_spares (loop.valid fair.valid) (loop.lets lets))

theorem releaseNode_spares (fair : Fair own host d s) (lets : Lets gone s name) :
    Spares own gone s ((releaseNode own host name).after s) := by
  rw [releaseNode, Act.after_get_bind]
  exact releaseBelow_spares closed _ fair lets

theorem takeMutations_spares (fair : Fair own w.host d s) (orphans : ∀ name ∈ w.orphans, Lets gone s name)
    (cleanup : Bool) : Spares own gone s ((takeMutations own w cleanup).after s) := by
  have taken : Spares own gone s ((Act.updateWalker own fun w => { w with queue := [] }).after s) :=
    .updateWalker s fun _ => rfl
  cases cleanup with
  | false => exact taken
  | true =>
    have emptied : Spares own gone s (emptied s own) := taken.trans (.updateWalker _ fun _ => rfl)
    rw [after_takeMutations]
    refine forM_spares (fun name member t spares => ?_) emptied
    exact releaseNode_spares closed (fair.spares spares) (spares.lets (orphans name member))

end

end Walker

end RemoteInspector
