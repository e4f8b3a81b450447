import RemoteInspector.Proofs.Registry.Release
import RemoteInspector.Proofs.Serve.Steps
/-!
Whose the queue of a walker is: whatever others do, its records stay as long as it lives.
-/
namespace RemoteInspector

open Registry (Named)

namespace Walker

theorem after_updateWalker (s : Scene) (own : String) (f : WalkerActor → WalkerActor) (x : String) :
    ((Act.updateWalker own f).after s).find? x = (s.find? x).map fun a =>
      if x = own then
        match a with
        | .walker w => .walker (f w)
        | other => other
      else a :=
  Scene.find?_update _ _ _ _

theorem after_updateWalker_ne {s : Scene} {own x : String} (other : x ≠ own) (f : WalkerActor → WalkerActor) :
    ((Act.updateWalker own f).after s).find? x = s.find? x := by
  simp [after_updateWalker, other]

theorem valid_updateWalker {s : Scene} (valid : s.Valid) (own : String)
    (f : WalkerActor → WalkerActor) : ((Act.updateWalker own f).after s).conn.registry.Valid s.conn.id := by
  have updated : ∃ g : Actor → Actor, (Act.updateWalker own f).after s = s.update own g ∧
      ∀ a : Actor, a.Alike (g a) :=
    ⟨_, rfl, fun a => by cases a <;> exact ⟨rfl, rfl, List.Subset.refl _⟩⟩
  obtain ⟨g, updated, alike⟩ := updated
  rw [updated]
  exact valid.update_alike fun e _ _ => alike e.actor

theorem find?_queue_own {s : Scene} {own : String} {w : WalkerActor} (live : s.find? own = some (.walker w))
    (w' : WalkerActor) (records : List Mutation) :
    ((queue own w' records).after s).find? own = some (.walker { w with queue := w.queue ++ records }) := by
  unfold queue
  split
  · rename_i empty
    rw [List.isEmpty_iff.mp empty, List.append_nil]
    exact live
  · have queued : ((Act.updateWalker own fun w => { w with queue := w.queue ++ records }).after s).find? own =
        some (.walker { w with queue := w.queue ++ records }) := by
      rw [after_updateWalker, live]
      simp
    rw [Act.after_bind]
    split
    · rw [Act.after_event, Scene.find?_write, queued]
    · exact queued

theorem find?_queue_other {own walker : String} (other : own ≠ walker) (w : WalkerActor) (records : List Mutation)
    (s : Scene) : ((queue walker w records).after s).find? own = s.find? own := by
  unfold queue
  split
  · rfl
  · rw [Act.after_bind]
    split
    · rw [Act.after_event, Scene.find?_write, after_updateWalker_ne other]
    · exact after_updateWalker_ne other _

end Walker

def Scene.queue? (s : Scene) (name : String) : Option (List Mutation) := (s.find? name).bind Actor.queue?

theorem Scene.queue?_of_walker {s : Scene} {name : String} {w : WalkerActor}
    (live : s.find? name = some (.walker w)) : s.queue? name = some w.queue := by
  simp [Scene.queue?, live, Actor.queue?]

/-- What waits at an actor waited there before, unless the actor is new. -/
structure Scene.Leaves (own : String) (s t : Scene) : Prop where
  id : t.conn.id = s.conn.id
  later : s.conn.registry.next ≤ t.conn.registry.next
  queue : ∀ q, t.queue? own = some q →
    s.queue? own = some q ∨ Named s.conn.id s.conn.registry.next t.conn.registry.next own

namespace Scene.Leaves

variable {own : String} {s t u : Scene}

theorem same (id : t.conn.id = s.conn.id) (registry : t.conn.registry = s.conn.registry) : s.Leaves own t where
  id := id
  later := Nat.le_of_eq (congrArg _ registry.symm)
  queue q found := by
    rw [queue?, find?, registry] at found
    exact .inl found

theorem refl (s : Scene) : s.Leaves own s := same rfl rfl

theorem trans (first : s.Leaves own t) (next : t.Leaves own u) : s.Leaves own u where
  id := next.id.trans first.id
  later := Nat.le_trans first.later next.later
  queue q found := by
    rcases next.queue q found with found | named
    · exact (first.queue q found).imp_right fun named => named.widen (Nat.le_refl _) next.later
    · rw [first.id] at named
      exact .inr (named.widen first.later (Nat.le_refl _))

/-- A change of one actor that brings no records with it. -/
theorem update {name : String} {f : Actor → Actor}
    (kept : name = own → ∀ a q, (f a).queue? = some q → a.queue? = some q) : s.Leaves own (s.update name f) where
  id := rfl
  later := Nat.le_refl _
  queue q found := by
    refine .inl ?_
    simp only [queue?, find?, registry_update, Registry.find?_update] at found ⊢
    cases live : s.conn.registry.find? own with
    | none => simp [live] at found
    | some a =>
      by_cases here : own = name
      · subst here
        exact kept rfl a q (by simpa [live] using found)
      · simpa [live, here] using found

theorem add {name : String} {owner : Option String} {actor : Actor} {next : Nat} (later : s.conn.registry.next ≤ next)
    (new : actor.queue? = none ∨ Named s.conn.id s.conn.registry.next next name) :
    s.Leaves own (s.setRegistry fun r => { r with next := next }.add ⟨name, owner, actor⟩) where
  id := rfl
  later := later
  queue q found := by
    have looked : (s.setRegistry fun r => { r with next := next }.add ⟨name, owner, actor⟩).find? own =
        (s.find? own).or (if name = own then some actor else none) := Registry.find?_add _ _ _
    rw [queue?, looked] at found
    cases live : s.find? own with
    | some a => exact .inl (by simpa [queue?, live] using found)
    | none =>
      by_cases here : name = own
      · rcases new with plain | named
        · simp [live, here, plain] at found
        · exact .inr (here ▸ named)
      · simp [live, here] at found

theorem destroy (s : Scene) (name : String) (actor : Actor) : s.Leaves own (s.destroy name actor) := by
  cases actor with
  | node actor =>
    have forgotten (t : Scene) : t.Leaves own (t.update actor.walker fun
        | .walker w => .walker (w.forget actor.node name)
        | other => other) :=
      update fun _ a q found => by cases a <;> exact found
    simp only [Scene.destroy]
    split
    · exact trans (t := s.setSite _) (same rfl rfl) (forgotten _)
    · exact forgotten _
  | console actor =>
    simp only [Scene.destroy]
    split <;> exact same rfl rfl
  | network actor => exact update fun _ a q found => by cases a <;> exact found
  | trace host =>
    refine same ?_ (Scene.registry_detach s name)
    simp only [Scene.destroy, Scene.detach]
    split
    · rfl
    · split <;> rfl
  | _ => exact refl s

theorem releaseOne (s : Scene) (name : String) : s.Leaves own (s.releaseOne name) := by
  unfold Scene.releaseOne
  split
  · refine trans (t := s.setRegistry (·.remove name)) ?_ (destroy _ name _)
    refine ⟨rfl, Nat.le_refl _, fun q found => .inl ?_⟩
    have looked : (s.setRegistry (·.remove name)).find? own = if own = name then none else s.find? own :=
      Registry.find?_remove _ _ _
    rw [queue?, looked] at found
    by_cases here : own = name
    · simp [here] at found
    · simpa [queue?, here] using found
  · exact refl s

theorem release (s : Scene) (name : String) : s.Leaves own (s.release name) :=
  release_rel refl (fun first next => first.trans next) releaseOne s name

theorem write (s : Scene) (packet : Json) : s.Leaves own (s.write packet) := by
  unfold Scene.write
  split <;> exact same rfl rfl

theorem reply {self : String} (packet : Json) (released : Bool) :
    s.Leaves own (if released then (s.write packet).release self else s.write packet) := by
  cases released with
  | true => exact (write s packet).trans (release _ self)
  | false => exact write s packet

theorem queue?_eq (leaves : s.Leaves own t) (given : own = "root" ∨ Named s.conn.id 0 s.conn.registry.next own)
    (few : t.Few) {q : List Mutation} (after : t.queue? own = some q) : s.queue? own = some q := by
  rcases leaves.queue q after with found | named
  · exact found
  · rcases given with root | given
    · exact absurd root named.ne_root
    · exact (given.disjoint named (Nat.le_refl _) few).elim

end Scene.Leaves

namespace Act

variable {own : String}

abbrev Leaves (own : String) {γ : Type} (act : Act γ) : Prop := Keeps (fun _ => True) (Scene.Leaves own) act

theorem leaves_law : Law (Leaves own) :=
  keeps_law (fun s _ => .refl s) (fun first next => first.trans next) fun _ _ => trivial

namespace Leaves

theorem tending : Tending (Leaves own) where
  law := leaves_law
  read s _ := .refl s
  site _ _ _ := .same rfl rfl
  call _ _ _ _ _ _ := .same rfl rfl
  name _ s _ := ⟨rfl, Nat.le_succ _, fun _ found => .inl found⟩
  register owner actor listed s _ := .add (Nat.le_succ _) (.inr (Registry.newName_named listed _ _))
  registerAs _ _ _ plain _ _ := .add (Nat.le_refl _) (.inl plain)
  scripts _ _ _ := ⟨rfl, Nat.le_refl _, fun _ found => .inl found⟩
  update _ _ kept _ _ := .update fun _ a _ found => (kept a).symm.trans found
  release name s _ := .release s name
  tracing _ _ _ _ := .same rfl rfl
  detach name s _ := by
    refine .same ?_ (Scene.registry_detach s name)
    simp only [after_modify, Scene.detach]
    split
    · rfl
    · split <;> rfl

theorem event (packet : Json) : Leaves own (event packet) := fun s _ => .write s packet

theorem onUpdate (console : String) (c : ConsoleActor) (id : String) (event : NetworkEvent) :
    Leaves own (Network.onUpdate console c id event) := by
  refine leaves_law.bind tending.read fun s => ?_
  dsimp only
  split
  · exact tending.updateConsole _ _
  · split
    · exact leaves_law.pure _
    · refine leaves_law.bind (fun s _ => .update fun _ a q found => ?_) fun _ => Leaves.event _
      cases found

theorem following : Following (Leaves own) :=
  { tending with
    event := fun _ _ _ _ _ => event _
    onUpdate := onUpdate }

theorem elsewhere {name : String} (other : name ≠ own) (f : Actor → Actor) : Leaves own (Act.update name f) :=
  fun _ _ => .update fun same => absurd same other

/-! ### Other walkers -/

variable {walker : String}

theorem queue (other : walker ≠ own) (w : WalkerActor) (records : List Mutation) :
    Leaves own (Walker.queue walker w records) :=
  Walker.queue_law leaves_law w (elsewhere other _) (event _)

theorem onChanges (other : walker ≠ own) (changes : List Dom.Change) : Leaves own (Walker.onChanges walker changes) :=
  Walker.onChanges_law leaves_law tending.read (queue other) changes fun _ => elsewhere other _

theorem onFrameLoad (other : walker ≠ own) (frame : NodeId) : Leaves own (Walker.onFrameLoad walker frame) :=
  Walker.onFrameLoad_law leaves_law tending.read (queue other) frame

theorem onDocumentUnload (other : walker ≠ own) (document : NodeId) :
    Leaves own (Walker.onDocumentUnload walker document) :=
  Walker.onDocumentUnload_law leaves_law tending.read (queue other) document (tending.releaseNode walker)

end Leaves

end Act

end RemoteInspector
