import RemoteInspector.Scene
/-!
Looking into scenes: what is found under a name, and what the setters leave alone.
-/
namespace RemoteInspector

namespace Scene

variable {s : Scene} {name : String}

@[simp] theorem registry_update (s : Scene) (name : String) (f : Actor → Actor) :
    (s.update name f).conn.registry = s.conn.registry.update name f := rfl

theorem registry_write (s : Scene) (packet : Json) : (s.write packet).conn.registry = s.conn.registry := by
  unfold write
  split <;> rfl

theorem find?_write (s : Scene) (packet : Json) (x : String) : (s.write packet).find? x = s.find? x := by
  rw [find?, registry_write, find?]

theorem site_write (s : Scene) (packet : Json) : (s.write packet).site = s.site := by
  unfold write
  split <;> rfl

theorem walker?_eq_some {w : WalkerActor} : s.walker? name = some w ↔ s.find? name = some (.walker w) := by
  unfold walker?
  cases s.find? name with
  | none => simp
  | some actor => cases actor <;> simp [Actor.walker?]

theorem node?_eq_some {actor : NodeActor} : s.node? name = some actor ↔ s.find? name = some (.node actor) := by
  unfold node?
  cases s.find? name with
  | none => simp
  | some actor => cases actor <;> simp [Actor.node?]

theorem console?_eq_some {c : ConsoleActor} : s.console? name = some c ↔ s.find? name = some (.console c) := by
  unfold console?
  cases s.find? name with
  | none => simp
  | some actor => cases actor <;> simp [Actor.console?]

theorem network?_eq_some {n : NetworkActor} :
    (s.find? name).bind Actor.network? = some n ↔ s.find? name = some (.network n) := by
  cases s.find? name with
  | none => simp
  | some actor => cases actor <;> simp [Actor.network?]

/-- What holds wherever one actor leaves holds wherever all leave that it owns. -/
theorem release_rel {R : Scene → Scene → Prop} (refl : ∀ s, R s s) (trans : ∀ {s t u}, R s t → R t u → R s u)
    (releaseOne : ∀ s name, R s (s.releaseOne name)) (s : Scene) (name : String) : R s (s.release name) := by
  unfold release
  generalize s.conn.registry.releaseOrder s.conn.registry.entries.length name = names
  induction names generalizing s with
  | nil => exact refl s
  | cons first rest ih => exact trans (releaseOne s first) (ih _)

end Scene

theorem Actor.object?_eq_some {a : Actor} {actor : ObjectActor} : a.object? = some actor ↔ a = .object actor := by
  cases a <;> simp [Actor.object?]

end RemoteInspector
