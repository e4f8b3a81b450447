import RemoteInspector.Dom.Selector
import RemoteInspector.Inspector.Paging
import RemoteInspector.Proofs.Dom.Links
import RemoteInspector.Proofs.Dom.Loops
/-!
Walks that show every kind of node: all they hide is blank text, so a walk goes along one row of siblings.
-/
namespace RemoteInspector

namespace Walk

open Dom

variable {d : Dom} {n c p doc : NodeId}

/-! ### What is shown -/

theorem shown_document (wf : d.WellFormed) (document : d.isDocument n = true) : shown d .all n = true := by
  obtain ⟨node, found, kind⟩ := isDocument_iff.mp document
  exact shown_of_kind wf.typed found (by rw [kind]; decide)

theorem shown_of_up (wf : d.WellFormed) (link : d.up c = some n) : shown d .all n = true := by
  rcases wf.up_eq_some.mp link with parent | content
  · exact shown_of_child wf.typed (wf.parent_iff.mp parent)
  · obtain ⟨node, found, link⟩ := contentDocument?_eq_some.mp content
    refine shown_of_kind wf.typed found ?_
    rw [(wf.frames _ (wf.mem_nodes.mpr found) c link).1]
    decide

/-! ### Down -/

theorem below_eq (typed : d.Typed) (n : NodeId) : below d .all n =
    (d.contentDocument? n).elim ((d.children n).filter (shown d .all)) fun doc => [doc] := by
  rw [below, firstChild?, edge?_start typed.toConsistent]
  cases content : d.contentDocument? n with
  | some doc =>
    have owner := typed.documentOf?_document (typed.content_document content)
    have stays := steps_of_root d .forward (w := start d .all doc) (by simp [start, owner]) d.reach
    simp only [Option.elim_some, stays]
    rfl
  | none =>
    rw [Option.elim_none, Option.elim_none, ← level_all typed]
    cases line : level d .all n with
    | nil => rfl
    | cons first rest =>
      have shows : shown d .all n = true := shown_of_level typed (line ▸ List.mem_cons_self)
      have walked := steps_eq (w := { start d .all n with current := first }) typed.toConsistent
        (line.trans (List.nil_append _).symm) (within_root typed.toConsistent .all n) (.inr shows) .forward d.reach
      have short : rest.length ≤ d.reach := by
        have few := length_level_le typed.toConsistent .all n
        rw [line, List.length_cons] at few
        have := d.nodes_lt_reach
        omega
      simp only [facing, List.head?_cons, Option.map_some]
      exact congrArg (first :: ·) (walked.trans (List.take_of_length_le short))

theorem mem_below (wf : d.WellFormed) : c ∈ below d .all n ↔ d.up c = some n ∧ shown d .all c = true := by
  rw [below_eq wf.typed, wf.up_eq_some, wf.parent_iff]
  cases content : d.contentDocument? n with
  | none => simp
  | some doc =>
    obtain ⟨document, -, childless⟩ := wf.content_document content
    simp only [Option.elim_some, List.mem_singleton, childless, List.not_mem_nil, false_or, Option.some.injEq]
    constructor
    · rintro rfl
      exact ⟨rfl, shown_document wf document⟩
    · exact fun ⟨same, _⟩ => same.symm

theorem up_of_below (framed : d.Framed) (member : c ∈ below d .all n) : d.up c = some n := by
  rw [below_eq framed.toTyped] at member
  refine framed.up_of_link ?_
  cases content : d.contentDocument? n with
  | some doc =>
    rw [content] at member
    exact .inr (List.mem_singleton.mp member ▸ rfl)
  | none =>
    rw [content] at member
    exact .inl (framed.parent_iff.mpr (List.mem_filter.mp member).1)

/-! ### Up -/

theorem up_of_visibleParent (typed : d.Typed) (parent : visibleParent? d n = some p) : d.up n = some p := by
  obtain ⟨fuel, reached⟩ := d.reach_succ
  obtain ⟨w, found, rfl⟩ := Option.map_eq_some_iff.mp parent
  have here : start d .all n = ⟨(d.documentOf? n).getD n, .all, n⟩ := rfl
  rw [here, Walk.parent?, reached, Walk.climb] at found
  by_cases document : d.isDocument n
  · have top : n = (d.documentOf? n).getD n := by simp [typed.documentOf?_document document]
    rw [if_pos top] at found
    obtain ⟨frame, embeds, rfl⟩ := Option.map_eq_some_iff.mp ((if_pos document).symm.trans found)
    simpa [up, typed.parent_document document, document, enter, start] using embeds
  · split at found
    · rename_i climbed
      cases found
      split at climbed
      · cases climbed
      · -- Whatever has children is shown, so the climb ends after one step.
        obtain ⟨above, link, ends⟩ := Option.bind_eq_some_iff.mp climbed
        cases (if_pos (shown_of_child typed (typed.parent_iff.mp link))).symm.trans ends
        exact WellFormed.up_of_parent link
    · cases (if_neg document).symm.trans found

theorem parent?_start (wf : d.WellFormed) (owner : d.documentOf? n = some doc) :
    parent? d (start d .all n) = (d.up n).map (start d .all) := by
  obtain ⟨fuel, reached⟩ := d.reach_succ
  have here : start d .all n = ⟨doc, .all, n⟩ := by simp [start, owner]
  rw [here, parent?]
  by_cases document : d.isDocument n
  · have same : n = doc := Option.some.inj ((wf.documentOf?_document document).symm.trans owner)
    simp only [reached, climb, same, if_true]
    rw [if_pos (same ▸ document), wf.up_document (same ▸ document)]
    rfl
  · have other : n ≠ doc := fun same => document (same ▸ (wf.isDocument_of_documentOf? owner).1)
    cases parent : d.parent? n with
    | none =>
      rw [wf.documentOf?_eq, top_of_no_parent parent, if_neg document] at owner
      cases owner
    | some p =>
      have shows : shown d .all p = true := shown_of_up wf (WellFormed.up_of_parent parent)
      have owner' : d.documentOf? p = some doc := (wf.documentOf?_parent parent).trans owner
      simp [reached, climb, other, parent, shows, WellFormed.up_of_parent parent, start, owner']

theorem visibleParent?_eq (wf : d.WellFormed) (owner : d.documentOf? n = some doc) : visibleParent? d n = d.up n := by
  rw [visibleParent?, parent?_start wf owner, Option.map_map]
  exact Option.map_id'

theorem ancestors_start (wf : d.WellFormed) (under : d.Under n d.root) (fuel : Nat) :
    ancestors d fuel (start d .all n) = d.climb fuel n := by
  induction fuel generalizing n with
  | zero => rfl
  | succ fuel ih =>
    obtain ⟨doc, owner⟩ := wf.documentOf?_of_under_root under
    rw [ancestors, parent?_start wf owner, Dom.climb]
    cases link : d.up n with
    | none => rfl
    | some p =>
      rcases under.cases_up with rfl | ⟨q, link', higher⟩
      · rw [wf.up_root] at link
        cases link
      · cases link.symm.trans link'
        simp only [Option.map_some, Option.elim_some, ih higher]
        rfl

theorem visibleAncestors_eq (wf : d.WellFormed) (under : d.Under n d.root) : visibleAncestors d n = d.ancestors n :=
  ancestors_start wf under d.reach

end Walk

end RemoteInspector
