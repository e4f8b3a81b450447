import RemoteInspector.Grip.Basic
/-!
Grips gone through once for every gripper.
-/
namespace RemoteInspector

/-- A gripper whose own steps have a property that sequencing keeps. -/
structure Gripper.Obeys {m : Type → Type} [Monad m] (g : Gripper m) (C : ∀ {γ : Type}, m γ → Prop) : Prop where
  pure : ∀ {γ : Type} (a : γ), C (Pure.pure a)
  bind : ∀ {γ δ : Type} {x : m γ} {f : γ → m δ}, C x → (∀ a, C (f a)) → C (x >>= f)
  object : ∀ ref, C (g.object ref)
  call : ∀ ref receiver, C (g.call ref receiver)
  objectGrip : ∀ ref, C (g.objectGrip ref)
  longStringGrip : ∀ text, C (g.longStringGrip text)

namespace Gripper.Obeys

variable {m : Type → Type} [Monad m] {g : Gripper m} {C : ∀ {γ : Type}, m γ → Prop}
variable (obeys : g.Obeys C)

include obeys

theorem foldlM {α β : Type} {f : β → α → m β} (each : ∀ b a, C (f b a)) (items : List α) (b : β) :
    C (items.foldlM f b) := by
  induction items generalizing b with
  | nil => exact obeys.pure b
  | cons a rest ih =>
    rw [List.foldlM_cons]
    exact obeys.bind (each b a) ih

theorem mapM [LawfulMonad m] {α β : Type} {f : α → m β} (each : ∀ a, C (f a)) (items : List α) : C (items.mapM f) := by
  induction items with
  | nil => exact List.mapM_nil (f := f) ▸ obeys.pure []
  | cons a rest ih =>
    rw [List.mapM_cons]
    exact obeys.bind (each a) fun b => obeys.bind ih fun bs => obeys.pure (b :: bs)

theorem value (v : Value) : C (Grip.value g v) := by
  cases v with
  | string text =>
    simp only [Grip.value]
    split
    · exact obeys.longStringGrip text
    · exact obeys.pure _
  | object ref => exact obeys.objectGrip ref
  | _ => exact obeys.pure _

theorem descriptor (d : PropertyDescriptor) : C (Grip.descriptor g d) := by
  unfold Grip.descriptor
  split
  · exact obeys.bind (obeys.value _) fun _ => obeys.pure _
  · exact obeys.bind (obeys.value _) fun _ => obeys.bind (obeys.value _) fun _ => obeys.pure _

theorem property (o : ScriptObject) (name : String) : C (Grip.property g o name) := by
  unfold Grip.property
  split
  · exact obeys.pure _
  · exact obeys.pure _
  · exact obeys.bind (obeys.descriptor _) fun _ => obeys.pure _

theorem ownProperties (o : ScriptObject) : C (Grip.ownProperties g o) := by
  unfold Grip.ownProperties
  split
  · exact obeys.pure _
  · refine obeys.foldlM (fun fields name => ?_) _ _
    refine obeys.bind (obeys.property o name) fun found => ?_
    cases found <;> exact obeys.pure _

theorem safeGetterValue (receiver : Value) (own : Fields) (level : Nat) (o : ScriptObject)
    (found : Fields) (name : String) : C (Grip.safeGetterValue g receiver own level o found name) := by
  unfold Grip.safeGetterValue
  split
  · exact obeys.pure _
  · refine obeys.bind ?_ fun getter => ?_
    · unfold Grip.safeGetter?
      split
      · exact obeys.bind (obeys.object _) fun _ => obeys.pure _
      · exact obeys.pure _
    · cases getter with
      | none => exact obeys.pure _
      | some getter =>
        refine obeys.bind (obeys.call _ _) fun completion => ?_
        split
        · exact obeys.pure _
        · exact obeys.pure _
        · exact obeys.bind (obeys.value _) fun _ => obeys.pure _

theorem safeGetters (receiver : Value) (own : Fields) (fuel level : Nat) (visited : List ObjectId)
    (found : Fields) (ref : ObjectRef) : C (Grip.safeGetters g receiver own fuel level visited found ref) := by
  induction fuel generalizing level visited found ref with
  | zero => exact obeys.pure _
  | succ fuel ih =>
    unfold Grip.safeGetters
    split
    · exact obeys.pure _
    · refine obeys.bind (obeys.object ref) fun o => ?_
      split
      · exact obeys.pure _
      · refine obeys.bind (obeys.foldlM (obeys.safeGetterValue _ _ _ _) _ _) fun found => ?_
        split
        · exact obeys.pure _
        · exact ih _ _ _ _

theorem prototype (ref : ObjectRef) : C (Grip.prototype g ref) := by
  refine obeys.bind (obeys.object ref) fun o => ?_
  split
  · exact obeys.objectGrip _
  · exact obeys.pure _

theorem describe (ref : ObjectRef) : C (Grip.describe g ref) :=
  obeys.bind (obeys.object ref) fun o => obeys.bind (obeys.prototype ref) fun _ =>
    obeys.bind (obeys.ownProperties o) fun _ => obeys.bind (obeys.safeGetters _ _ _ _ _ _ _) fun _ => obeys.pure _

end Gripper.Obeys

end RemoteInspector
