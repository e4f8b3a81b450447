import RemoteInspector.Proofs.Site
/-!
Object graphs: sets of objects that looking into their objects does not leave. What relates the single steps of two
grippers relates all their grips.
-/
namespace RemoteInspector

def PropertyDescriptor.Holds (d : PropertyDescriptor) (ref : ObjectRef) : Prop :=
  match d.kind with
  | .data v _ => v = .object ref
  | .accessor get set => get = some (.object ref) ∨ set = some (.object ref)

/-- A set of objects that prototypes, properties and what getters give do not leave. -/
structure Site.Graph (site : Site) (graph : ObjectRef → Prop) : Prop where
  proto : ∀ {ref id}, graph ref → (site.object ref).proto = some id → graph ⟨ref.host, id⟩
  property : ∀ {ref name d other}, graph ref → (site.object ref).ownProperty name = .ok (some d) →
    d.Holds other → graph other
  result : ∀ {receiver getter other}, graph receiver → graph getter →
    (site.callObject none getter (.object receiver)).2.result? = some (.object other) → graph other

/-- Two grippers that look at one site, and a relation between what they do that sequencing keeps. Of what
they grip, only the objects of the graph have to be related. -/
structure Gripper.Abreast {m n : Type → Type} [Monad m] [Monad n] (site : Site) (graph : ObjectRef → Prop)
    (g : Gripper m) (h : Gripper n) (R : ∀ {γ : Type}, m γ → n γ → Prop) : Prop where
  limits : g.limits = h.limits
  pure : ∀ {γ : Type} (a : γ), R (Pure.pure a) (Pure.pure a)
  bind : ∀ {γ δ : Type} {x : m γ} {y : n γ} {f : γ → m δ} {f' : γ → n δ}, R x y → (∀ a, R (f a) (f' a)) →
    R (x >>= f) (y >>= f')
  object : ∀ {δ : Type} {ref : ObjectRef} {f : ScriptObject → m δ} {f' : ScriptObject → n δ},
    R (f (site.object ref)) (f' (site.object ref)) → R (g.object ref >>= f) (h.object ref >>= f')
  call : ∀ {δ : Type} {ref : ObjectRef} {receiver : Value} {f : Completion Value → m δ}
    {f' : Completion Value → n δ},
    R (f (site.callObject none ref receiver).2) (f' (site.callObject none ref receiver).2) →
      R (g.call ref receiver >>= f) (h.call ref receiver >>= f')
  objectGrip : ∀ {ref}, graph ref → R (g.objectGrip ref) (h.objectGrip ref)
  longStringGrip : ∀ text, R (g.longStringGrip text) (h.longStringGrip text)

namespace Gripper.Abreast

variable {m n : Type → Type} [Monad m] [Monad n] {site : Site} {graph : ObjectRef → Prop}
  {g : Gripper m} {h : Gripper n} {R : ∀ {γ : Type}, m γ → n γ → Prop} {ref : ObjectRef}
variable (abreast : Abreast site graph g h R)

include abreast

theorem foldlM {α β : Type} {f : β → α → m β} {f' : β → α → n β} (each : ∀ b a, R (f b a) (f' b a))
    (items : List α) (b : β) : R (items.foldlM f b) (items.foldlM f' b) := by
  induction items generalizing b with
  | nil => exact abreast.pure b
  | cons a rest ih =>
    rw [List.foldlM_cons, List.foldlM_cons]
    exact abreast.bind (each b a) ih

theorem mapM [LawfulMonad m] [LawfulMonad n] {α β : Type} {f : α → m β} {f' : α → n β} {items : List α}
    (each : ∀ a ∈ items, R (f a) (f' a)) : R (items.mapM f) (items.mapM f') := by
  induction items with
  | nil =>
    rw [List.mapM_nil, List.mapM_nil]
    exact abreast.pure []
  | cons a rest ih =>
    rw [List.mapM_cons, List.mapM_cons]
    refine abreast.bind (each a List.mem_cons_self) fun b => ?_
    exact abreast.bind (ih fun a member => each a (List.mem_cons_of_mem _ member)) fun bs => abreast.pure (b :: bs)

theorem value {v : Value} (inside : ∀ ref, v = .object ref → graph ref) : R (Grip.value g v) (Grip.value h v) := by
  cases v with
  | string text =>
    simp only [Grip.value, abreast.limits]
    split
    · exact abreast.longStringGrip text
    · exact abreast.pure _
  | object ref => exact abreast.objectGrip (inside ref rfl)
  | _ => exact abreast.pure _

theorem optionalValue {v : Option Value} (inside : ∀ ref, v = some (.object ref) → graph ref) :
    R (Grip.value g (v.getD .undefined)) (Grip.value h (v.getD .undefined)) := by
  refine abreast.value fun ref same => ?_
  cases v with
  | none => cases same
  | some v => exact inside ref (congrArg some same)

theorem descriptor {d : PropertyDescriptor} (inside : ∀ ref, d.Holds ref → graph ref) :
    R (Grip.descriptor g d) (Grip.descriptor h d) := by
  obtain ⟨configurable, enumerable, kind⟩ := d
  cases kind with
  | data v writable => exact abreast.bind (abreast.value inside) fun _ => abreast.pure _
  | accessor get set =>
    refine abreast.bind (abreast.optionalValue fun ref same => inside ref (.inl same)) fun _ => ?_
    exact abreast.bind (abreast.optionalValue fun ref same => inside ref (.inr same)) fun _ => abreast.pure _

section Objects

variable (closed : site.Graph graph)

include closed

theorem property (inside : graph ref) (name : String) :
    R (Grip.property g (site.object ref) name) (Grip.property h (site.object ref) name) := by
  unfold Grip.property
  split
  · exact abreast.pure _
  · exact abreast.pure _
  · rename_i found
    exact abreast.bind (abreast.descriptor fun _ => closed.property inside found) fun _ => abreast.pure _

theorem ownProperties (inside : graph ref) :
    R (Grip.ownProperties g (site.object ref)) (Grip.ownProperties h (site.object ref)) := by
  unfold Grip.ownProperties
  split
  · exact abreast.pure _
  · refine abreast.foldlM (fun fields name => ?_) _ _
    refine abreast.bind (abreast.property closed inside name) fun found => ?_
    cases found <;> exact abreast.pure _

theorem prototype (inside : graph ref) : R (Grip.prototype g ref) (Grip.prototype h ref) := by
  refine abreast.object ?_
  split
  · rename_i found
    exact abreast.objectGrip (closed.proto inside found)
  · exact abreast.pure _

variable [LawfulMonad m] [LawfulMonad n] {receiver : ObjectRef} (called : graph receiver)

include called

theorem safeGetterValue (inside : graph ref) (own : Fields) (level : Nat) (found : Fields) (name : String) :
    R (Grip.safeGetterValue g (.object receiver) own level (site.object ref) found name)
      (Grip.safeGetterValue h (.object receiver) own level (site.object ref) found name) := by
  unfold Grip.safeGetterValue Grip.safeGetter?
  split
  · exact abreast.pure _
  · split
    · rename_i enumerable getter set property
      have there : graph getter := closed.property inside property (.inl rfl)
      rw [bind_assoc, bind_assoc]
      refine abreast.object ?_
      rw [pure_bind, pure_bind]
      split
      · exact abreast.pure _
      · rename_i same
        split at same
        · cases same
          refine abreast.call ?_
          split
          · exact abreast.pure _
          · exact abreast.pure _
          · rename_i result
            refine abreast.bind (abreast.value fun other same => ?_) fun _ => abreast.pure _
            exact closed.result called there (same ▸ result)
        · cases same
    · rw [pure_bind, pure_bind]
      exact abreast.pure _

theorem safeGetters (inside : graph ref) (own : Fields) (fuel level : Nat) (visited : List ObjectId)
    (found : Fields) :
    R (Grip.safeGetters g (.object receiver) own fuel level visited found ref)
      (Grip.safeGetters h (.object receiver) own fuel level visited found ref) := by
  induction fuel generalizing level visited found ref with
  | zero => exact abreast.pure _
  | succ fuel ih =>
    unfold Grip.safeGetters
    split
    · exact abreast.pure _
    · refine abreast.object ?_
      split
      · exact abreast.pure _
      · refine abreast.bind (abreast.foldlM (abreast.safeGetterValue closed called inside _ _) _ _) fun found => ?_
        split
        · exact abreast.pure _
        · rename_i proto
          exact ih (closed.proto inside proto) _ _ _

omit called

theorem describe (reach : g.reach = h.reach) (inside : graph ref) : R (Grip.describe g ref) (Grip.describe h ref) := by
  refine abreast.object ?_
  refine abreast.bind (abreast.prototype closed inside) fun _ => ?_
  refine abreast.bind (abreast.ownProperties closed inside) fun own => ?_
  refine abreast.bind ?_ fun _ => abreast.pure _
  unfold Grip.safeGetterValues
  rw [reach]
  exact abreast.safeGetters closed inside inside own _ _ _ _

end Objects

end Gripper.Abreast

end RemoteInspector
