import RemoteInspector.Proofs.Serve.Steps
/-!
Handlers are silent: whatever they change, they write nothing themselves.
-/
namespace RemoteInspector

/-- The scene has changed, but nothing was written and the connection stands as before. -/
structure Scene.Silent (s t : Scene) : Prop where
  sent : t.conn.sent = s.conn.sent
  line : t.conn.line = s.conn.line
  stage : t.conn.stage = s.conn.stage
  id : t.conn.id = s.conn.id

namespace Scene.Silent

variable {s t u : Scene}

theorem refl (s : Scene) : s.Silent s := ⟨rfl, rfl, rfl, rfl⟩

theorem trans (first : s.Silent t) (next : t.Silent u) : s.Silent u :=
  ⟨next.sent.trans first.sent, next.line.trans first.line, next.stage.trans first.stage, next.id.trans first.id⟩

theorem setSite (s : Scene) (f : Site → Site) : s.Silent (s.setSite f) := ⟨rfl, rfl, rfl, rfl⟩

theorem setRegistry (s : Scene) (f : Registry → Registry) : s.Silent (s.setRegistry f) :=
  ⟨rfl, rfl, rfl, rfl⟩

theorem update (s : Scene) (name : String) (f : Actor → Actor) : s.Silent (s.update name f) :=
  setRegistry s _

theorem setTracing (s : Scene) (name : String) (f : Tracing → Tracing) : s.Silent (s.setTracing name f) :=
  ⟨rfl, rfl, rfl, rfl⟩

theorem detach (s : Scene) (name : String) : s.Silent (s.detach name) := by
  unfold Scene.detach
  dsimp only
  split
  · exact refl s
  · split
    · exact (setSite s _).trans (setTracing _ name _)
    · exact (setSite s _).trans ((setSite _ _).trans (setTracing _ name _))

theorem destroy (s : Scene) (name : String) (actor : Actor) : s.Silent (s.destroy name actor) := by
  cases actor with
  | node actor =>
    simp only [Scene.destroy]
    split
    · exact (setSite s _).trans (update _ _ _)
    · exact update _ _ _
  | console actor =>
    simp only [Scene.destroy]
    split
    · exact setSite s _
    · exact refl s
  | network actor => exact update s _ _
  | trace host => exact detach s name
  | _ => exact refl s

theorem releaseOne (s : Scene) (name : String) : s.Silent (s.releaseOne name) := by
  unfold Scene.releaseOne
  split
  · exact (setRegistry s _).trans (destroy _ name _)
  · exact refl s

theorem release (s : Scene) (name : String) : s.Silent (s.release name) :=
  release_rel refl (fun first next => first.trans next) releaseOne s name

end Scene.Silent

namespace Act

abbrev Silent {γ : Type} (act : Act γ) : Prop := Keeps (fun _ => True) Scene.Silent act

theorem silent_law : Law Silent :=
  keeps_law (fun s _ => .refl s) (fun first next => first.trans next) (fun _ _ => trivial)

namespace Silent

theorem get : Silent (get : Act Scene) := fun s _ => .refl s

theorem site (f : Site → Site) : Silent (site f) := fun s _ => .setSite s f

theorem change {f : Scene → Scene} (each : ∀ s : Scene, s.Silent (f s)) : Silent (modify f) :=
  fun s _ => each s

theorem update (name : String) (f : Actor → Actor) : Silent (update name f) :=
  change fun s => .update s name f

theorem release (name : String) : Silent (release name) := fun s _ => .release s name

theorem register (kind owner : String) (actor : Actor) : Silent (register kind owner actor) :=
  fun s _ => by
    exact (Scene.Silent.setRegistry s fun r => { r with next := r.next + 1 }).trans
      (.setRegistry _ (·.add ⟨_, some owner, actor⟩))

theorem tending : Tending Silent where
  law := silent_law
  read := get
  site := site
  call _ _ ref receiver s _ := by
    exact .setSite s fun site => (site.callObject (some s.conn.id) ref receiver).1
  name _ s _ := .setRegistry s fun r => { r with next := r.next + 1 }
  register owner actor _ := register _ owner actor
  registerAs name owner {actor} _ s _ := .setRegistry s (·.add ⟨name, owner, actor⟩)
  scripts f := change fun s => .setRegistry s fun r => { r with scripts := f r.scripts }
  update name _ _ := update name _
  release := release
  tracing _ _ s _ := .setTracing s _ _
  detach _ s _ := .detach s _

theorem steps (s : Scene) (self : String) (actor : Actor) : actor.Steps Silent s self :=
  tending.handler s self actor fun _ _ => update self _

end Silent

end Act

end RemoteInspector
