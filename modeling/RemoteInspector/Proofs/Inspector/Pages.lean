import RemoteInspector.Inspector.Walker
import RemoteInspector.Proofs.Dom.Walks
/-!
Where the nodes of pages and selections stand: a page holds nodes of one row of siblings, and a selector
finds elements below its base.
-/
namespace RemoteInspector

namespace Walk

open Dom

variable {d : Dom} {n p x doc : NodeId} {way : Way} {w w' : Walk}

def Beside (d : Dom) (n x : NodeId) : Prop :=
  x = n ∨ ∃ p, d.parent? n = some p ∧ d.parent? x = some p ∧ shown d .all x = true

theorem Beside.trans {y : NodeId} (first : Beside d n x) (next : Beside d x y) : Beside d n y := by
  rcases first with rfl | ⟨p, parent, same, shows⟩
  · exact next
  · rcases next with rfl | ⟨q, same', parent', shows'⟩
    · exact .inr ⟨p, parent, same, shows⟩
    · cases same.symm.trans same'
      exact .inr ⟨p, parent, parent', shows'⟩

theorem step?_start (wf : d.WellFormed) (step : step? d way (start d .all n) = some w) :
    w = start d .all w.current ∧ Beside d n w.current := by
  cases owner : d.documentOf? n with
  | none => simp [step?, start, owner] at step
  | some doc =>
    have here : start d .all n = ⟨doc, .all, n⟩ := by simp [start, owner]
    by_cases same : n = doc
    · rw [here, step?, if_pos same] at step
      cases step
    · cases parent : d.parent? n with
      | none =>
        rw [wf.documentOf?_eq, top_of_no_parent parent] at owner
        split at owner
        · exact absurd (Option.some.inj owner) same
        · cases owner
      | some p =>
        have shows : shown d .all p = true := shown_of_up wf (WellFormed.up_of_parent parent)
        have owner_up := (wf.documentOf?_parent parent).trans owner
        obtain ⟨before, after, placed, next⟩ := beside_eq wf.consistent
          (.of_parent wf.consistent parent (wf.consistent.within_document owner_up).2 (.inr shows))
        rw [here, step?, if_neg same, next] at step
        obtain ⟨x, look, rfl⟩ := Option.map_eq_some_iff.mp step
        have member : x ∈ level d .all p := by
          rw [placed.spread]
          cases way with
          | forward => exact List.mem_append_right _ (List.mem_of_head? look)
          | backward =>
            exact List.mem_append_left _ (List.mem_append_left _ (List.mem_reverse.mp (List.mem_of_head? look)))
        rw [level_all wf.typed, List.mem_filter] at member
        have parent' : d.parent? x = some p := wf.parent_iff.mpr member.1
        have owner' : d.documentOf? x = some doc :=
          (wf.documentOf?_parent parent').symm.trans ((wf.documentOf?_parent parent).trans owner)
        exact ⟨by simp [start, owner'], .inr ⟨p, parent, parent', member.2⟩⟩

theorem mem_steps (wf : d.WellFormed) (count : Nat) (begun : w = start d .all w.current) :
    (∀ x ∈ (steps d way w count).1, Beside d w.current x) ∧
      (steps d way w count).2 = start d .all (steps d way w count).2.current ∧
        Beside d w.current (steps d way w count).2.current := by
  induction count generalizing w with
  | zero => exact ⟨fun x member => absurd member List.not_mem_nil, begun, .inl rfl⟩
  | succ count ih =>
    rw [steps]
    cases step : step? d way w with
    | none => exact ⟨fun x member => absurd member List.not_mem_nil, begun, .inl rfl⟩
    | some next =>
      rw [begun] at step
      obtain ⟨begun', beside⟩ := step?_start wf step
      obtain ⟨met, last, lasting⟩ := ih begun'
      refine ⟨fun x member => ?_, last, beside.trans lasting⟩
      rcases List.mem_cons.mp member with rfl | later
      · exact beside
      · exact beside.trans (met x later)

end Walk

namespace NodePage

open Walk

variable {d : Dom} {n x : NodeId}

theorem mem_forward (wf : d.WellFormed) {count : Nat} (member : x ∈ forward d (start d .all n) count) :
    Beside d n x := by
  cases count with
  | zero => cases member
  | succ count =>
    rcases List.mem_cons.mp member with rfl | later
    · exact .inl rfl
    · exact (mem_steps wf count rfl).1 x later

theorem mem_around (wf : d.WellFormed) {count : Nat} (member : x ∈ around d (start d .all n) count) : Beside d n x := by
  obtain ⟨met, last, lasting⟩ := mem_steps (w := start d .all n) wf (count / 2) rfl
  simp only [around, List.mem_append, List.mem_reverse] at member
  rcases member with (earlier | before) | after
  · exact lasting.trans ((mem_steps wf _ last).1 x earlier)
  · exact met x before
  · exact mem_forward wf after

/-- The nodes of a page of children stand in the row of the place it was asked for, or are children. -/
theorem mem_children (wf : d.WellFormed) {o : PageOptions} {page : NodePage}
    (given : children d n o = .ok page) (filter : o.filter = .all) (member : x ∈ page.nodes) :
    ∃ base, (o.center = some base ∨ o.start = some base ∨
      (d.up base = some n ∧ shown d .all base = true)) ∧ Beside d base x := by
  unfold children at given
  split at given
  · cases given
  · dsimp only at given
    rw [filter, Walk.firstChild?, edge?_start wf.consistent] at given
    split at given
    · cases given
      cases member
    · rename_i first down
      cases given
      have child : first.current ∈ below d .all n := by
        rw [below, Walk.firstChild?, edge?_start wf.consistent, down]
        exact List.mem_cons_self
      cases center : o.center with
      | some base =>
        simp only [center] at member
        exact ⟨base, .inl rfl, mem_around wf member⟩
      | none =>
        simp only [center] at member
        cases start : o.start with
        | some base =>
          rw [start] at member
          exact ⟨base, .inr (.inl rfl), mem_forward wf member⟩
        | none =>
          rw [start] at member
          exact ⟨first.current, .inr (.inr ((mem_below wf).mp child)), mem_forward wf member⟩

end NodePage

namespace Dom

variable {d : Dom} {base x : NodeId}

theorem WellFormed.under_of_mem_descendants (wf : d.WellFormed) {fuel : Nat}
    (member : x ∈ d.descendants fuel base) : d.Under x base := by
  induction fuel generalizing base with
  | zero => cases member
  | succ fuel ih =>
    obtain ⟨c, child, listed⟩ := List.mem_flatMap.mp member
    have link : d.up c = some base := WellFormed.up_of_parent (wf.parent_iff.mpr child)
    rcases List.mem_cons.mp listed with rfl | deeper
    · exact .single link
    · exact (ih deeper).tail link

theorem WellFormed.mem_select (wf : d.WellFormed) {selector : Selector}
    (found : x ∈ selector.select d base) : d.Under x base ∧ Walk.shown d .all x = true := by
  obtain ⟨member, isMatch⟩ := List.mem_filter.mp found
  refine ⟨wf.under_of_mem_descendants member, ?_⟩
  obtain ⟨element, -⟩ := (Bool.and_eq_true _ _).mp isMatch
  unfold Selector.isElement at element
  cases node : d.node? x with
  | none => simp [node] at element
  | some found =>
    have kind : found.kind = NodeKind.element := by simpa [node] using element
    exact Walk.shown_of_kind wf.typed node (by rw [kind]; decide)

end Dom

end RemoteInspector
