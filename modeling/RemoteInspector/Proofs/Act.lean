import RemoteInspector.Proofs.Scene
/-!
Acts and laws: properties of acts that hold of a sequence as soon as they hold of its steps.
-/
namespace RemoteInspector

namespace Act

variable {α β : Type}

/-- What an act gives. -/
def result (act : Act α) (s : Scene) : α := (act.run s : Id _).1

/-- The scene an act leaves. -/
def after (act : Act α) (s : Scene) : Scene := (act.run s : Id _).2

@[simp] theorem result_pure (a : α) (s : Scene) : result (pure a) s = a := rfl

@[simp] theorem after_pure (a : α) (s : Scene) : after (pure a) s = s := rfl

@[simp] theorem result_bind (x : Act α) (f : α → Act β) (s : Scene) :
    result (x >>= f) s = (f (x.result s)).result (x.after s) := rfl

@[simp] theorem after_bind (x : Act α) (f : α → Act β) (s : Scene) :
    after (x >>= f) s = (f (x.result s)).after (x.after s) := rfl

@[simp] theorem result_map (f : α → β) (x : Act α) (s : Scene) :
    result (f <$> x) s = f (x.result s) := rfl

@[simp] theorem after_map (f : α → β) (x : Act α) (s : Scene) : after (f <$> x) s = x.after s := rfl

@[simp] theorem result_get (s : Scene) : result get s = s := rfl

@[simp] theorem after_get (s : Scene) : after get s = s := rfl

theorem after_get_bind (f : Scene → Act β) (s : Scene) : after (get >>= f) s = (f s).after s := rfl

@[simp] theorem after_set (t s : Scene) : after (set t) s = t := rfl

@[simp] theorem after_modify (f : Scene → Scene) (s : Scene) : after (modify f) s = f s := rfl

@[simp] theorem after_update (name : String) (f : Actor → Actor) (s : Scene) :
    after (update name f) s = s.update name f := rfl

@[simp] theorem after_release (name : String) (s : Scene) : after (release name) s = s.release name := rfl

@[simp] theorem after_site (f : Site → Site) (s : Scene) : after (site f) s = s.setSite f := rfl

@[simp] theorem after_event (packet : Json) (s : Scene) : after (event packet) s = s.write packet := rfl

/-- A property of acts that sequencing keeps. -/
structure Law (C : ∀ {γ : Type}, Act γ → Prop) : Prop where
  pure : ∀ {γ : Type} (a : γ), C (Pure.pure a)
  bind : ∀ {γ δ : Type} {x : Act γ} {f : γ → Act δ}, C x → (∀ a, C (f a)) → C (x >>= f)

namespace Law

variable {C : ∀ {γ : Type}, Act γ → Prop}

theorem mapM (law : Law C) {f : α → Act β} (each : ∀ a, C (f a)) (items : List α) : C (items.mapM f) := by
  induction items with
  | nil => exact law.pure []
  | cons a rest ih =>
    rw [List.mapM_cons]
    exact law.bind (each a) fun b => law.bind ih fun bs => law.pure (b :: bs)

theorem forM_mem (law : Law C) {f : α → Act PUnit} {items : List α} (each : ∀ a ∈ items, C (f a)) :
    C (items.forM f) := by
  induction items with
  | nil => exact law.pure _
  | cons a rest ih =>
    exact law.bind (each a (by simp)) fun _ => ih fun b member => each b (by simp [member])

theorem optionMapM (law : Law C) {f : α → Act β} (each : ∀ a, C (f a)) (item : Option α) : C (item.mapM f) := by
  cases item with
  | none => exact law.pure none
  | some a => exact law.bind (each a) fun b => law.pure (some b)

end Law

/-- An act that keeps a relation between the scenes before and after it, wherever some condition
holds. -/
def Keeps (P : Scene → Prop) (R : Scene → Scene → Prop) {γ : Type} (act : Act γ) : Prop :=
  ∀ s, P s → R s (act.after s)

/-- Keeping a relation is a law if the condition carries over along the relation. -/
theorem keeps_law {P : Scene → Prop} {R : Scene → Scene → Prop} (refl : ∀ s, P s → R s s)
    (trans : ∀ {s t u}, R s t → R t u → R s u) (stable : ∀ {s t}, P s → R s t → P t) : Law (Keeps P R) where
  pure _ s holds := refl s holds
  bind first next s holds := trans (first s holds) (next _ _ (stable holds (first s holds)))

theorem keeps_read {P : Scene → Prop} {R : Scene → Scene → Prop} {f : Scene → Act β}
    (each : ∀ s, P s → R s ((f s).after s)) : Keeps P R (get >>= f) :=
  each

end Act

end RemoteInspector
