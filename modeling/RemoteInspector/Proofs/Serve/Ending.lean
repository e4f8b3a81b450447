import RemoteInspector.Proofs.Serve.Speech
/-!
The end of a connection: nobody is left, and nobody comes after.
-/
namespace RemoteInspector

namespace Registry.Valid

variable {id : ConnectionId} {r : Registry}

theorem roots_le_one (valid : r.Valid id) : r.roots.length ≤ 1 := by
  have nodup : r.roots.Nodup := (List.filter_sublist.map _).nodup valid.nodup
  have named : ∀ name ∈ r.roots, name = "root" := fun _ => valid.name_of_mem_roots
  match roots : r.roots with
  | [] => exact Nat.zero_le _
  | [_] => exact Nat.le_refl _
  | first :: second :: rest =>
    rw [roots] at nodup named
    have same := (named first (by simp)).trans (named second (by simp)).symm
    simp [same] at nodup

end Registry.Valid

theorem Scene.entries_releaseAll {s : Scene} {id : ConnectionId} (valid : s.conn.registry.Valid id) :
    s.releaseAll.conn.registry.entries = [] := by
  have single := valid.roots_le_one
  have under {e : Registry.Entry} (member : e ∈ s.conn.registry.entries) := valid.under_roots member
  unfold releaseAll
  match roots : s.conn.registry.roots with
  | [] =>
    rw [List.foldl_nil, List.eq_nil_iff_forall_not_mem]
    intro e member
    obtain ⟨top, listed, _⟩ := under member
    rw [roots] at listed
    cases listed
  | [top] =>
    rw [List.foldl_cons, List.foldl_nil, List.eq_nil_iff_forall_not_mem]
    intro e left
    have left := (release_pruned valid top).mem_names.mp (List.mem_map.mpr ⟨e, left, rfl⟩)
    obtain ⟨e', member, named⟩ := List.mem_map.mp left.1
    obtain ⟨top', listed, up⟩ := under member
    rw [roots, List.mem_singleton] at listed
    rw [listed, named] at up
    exact left.2 up
  | _ :: _ :: _ =>
    rw [roots] at single
    simp at single

def Connection.Emptied (c : Connection) : Prop := ¬ c.isOpen → c.registry.entries = []

namespace Serve

theorem close_emptied {s : Scene} {id : ConnectionId} (valid : s.conn.registry.Valid id) : (close s).conn.Emptied :=
  fun _ => Scene.entries_releaseAll valid

theorem emptied_of_begun {c : Connection} (begun : Begun c) (few : c.Few) : c.Emptied := by
  obtain ⟨site, id, line, tabs, rfl⟩ := begun
  rw [start_eq] at few ⊢
  split
  · -- Greeting a client does not end the connection.
    have added := Act.silent_law.forM_mem
      (fun (entry : TabId × PageId) (_ : entry ∈ tabs) => Act.Silent.tending.tabbed.addTab entry.1 entry.2)
      (rooted site id line) trivial
    have speaks : Scene.Speaks (fun _ => True) _ (greeted site id line tabs) := .write trivial
    intro closed
    refine absurd ?_ closed
    rw [Connection.isOpen, speaks.stage, added.stage]
    rfl
  · rename_i down
    rw [if_neg down] at few
    exact close_emptied (greeted_sound (Nat.le_trans (close_later _).later few)).valid

theorem step_emptied {s : Scene} (input : Input) (few : (step s input).Few)
    (sound : s.conn.Sound) (emptied : s.conn.Emptied) : (step s input).conn.Emptied := by
  -- Who speaks and goes on stays open.
  have goes_on {Q : Json → Prop} {t : Scene} (isOpen : s.conn.isOpen) (speaks : s.Speaks Q t) : t.conn.Emptied := by
    intro closed
    refine absurd ?_ closed
    rw [Connection.isOpen, speaks.stage]
    exact isOpen
  have reported (tracer type : String) (details : Site → Tracing → Site × List (String × Json)) :
      ((Tracer.report tracer type details).after s).conn.Emptied := by
    have written (t : Scene) (packet : Json) (same : t.conn.Emptied) : (t.write packet).conn.Emptied := by
      unfold Scene.write
      split <;> exact same
    exact written _ _ emptied
  cases input with
  | packet packet =>
    dsimp only [step] at few ⊢
    split
    · rename_i isOpen
      rw [if_pos isOpen] at few
      cases packet with
      | obj fields =>
        simp only [receive] at few ⊢
        split
        · exact goes_on isOpen (Request.handle_speaks s fields)
        · rename_i ended
          rw [if_neg ended] at few
          have handled := Request.handle_orderly s fields
          have few' := Nat.le_trans (close_later _).later few
          exact close_emptied (handled.follows few' sound.valid trivial).valid
      | _ => exact emptied
    · exact emptied
  | event event =>
    dsimp only [step, onEvent]
    split
    · rename_i isOpen
      exact goes_on isOpen (follow_speaks s event s trivial)
    · exact emptied
  | entered tracer frame => exact reported tracer _ _
  | left tracer completion => exact reported tracer _ _
  | lineBroken =>
    dsimp only [step]
    split <;> exact emptied
  | hungUp =>
    dsimp only [step]
    split
    · exact close_emptied sound.valid
    · exact emptied
  | told =>
    intro closed
    refine emptied fun isOpen => closed ?_
    simpa [step, Scene.setConn, Connection.isOpen] using isOpen

end Serve

end RemoteInspector
