import RemoteInspector.Proofs.Dom.Loops
/-!
Sibling steps of a walk: forward and backward steps undo each other and visit a level in document order.
-/
namespace RemoteInspector

namespace Walk

open Dom

variable {d : Dom} {f : Filter} {way : Way} {x y a doc : NodeId} {before after : List NodeId}

section

variable (tree : d.Consistent) (owner : d.documentOf? x = some doc)

include tree owner

theorem exists_level (inner : x ≠ doc) (shows : shown d f x = true) :
    ∃ a before after, Anchors d f doc x a ∧ level d f a = before ++ x :: after := by
  have below : d.Below x doc := (tree.within_document owner).2.eq_or_below.resolve_left inner
  obtain ⟨a, anchor⟩ := exists_anchor tree f below
  obtain ⟨before, after, line⟩ := List.append_of_mem ((mem_level tree).mpr (anchor.exposed shows))
  exact ⟨a, before, after, anchor, line⟩

theorem step?_level (anchor : Anchors d f doc x a) (line : level d f a = before ++ x :: after) (way : Way) :
    (step? d way (start d f x)).map (·.current) = (ahead way before after).head? := by
  rw [start_of_document owner, step?_eq (w := ⟨doc, f, x⟩) tree line anchor.within anchor.stops way, Option.map_map]
  exact Option.map_id'

theorem step?_back (inner : x ≠ doc) (shows : shown d f x = true)
    (step : (step? d way (start d f x)).map (·.current) = some y) :
    (step? d way.back (start d f y)).map (·.current) = some x := by
  obtain ⟨a, before, after, anchor, line⟩ := exists_level tree owner inner shows
  rw [step?_level tree owner anchor line] at step
  obtain ⟨others, rest⟩ : ∃ others, ahead way before after = y :: others := by
    cases rest : ahead way before after with
    | nil => simp [rest] at step
    | cons next others => exact ⟨others, by simpa [rest] using step⟩
  obtain ⟨before', after', line', -, back⟩ := ahead_cons line rest
  have exposed : Exposed d f a y := (mem_level tree).mp (by simp [line'])
  have owner' : d.documentOf? y = some doc := by
    rw [tree.documentOf?_within exposed.below.within, ← tree.documentOf?_within anchor.below.within, owner]
  rw [step?_level tree owner' (exposed.anchors anchor.within anchor.stops) line', back, List.head?_cons]

theorem step?_ends (anchor : Anchors d f doc x a) (line : level d f a = before ++ x :: after) (way : Way) :
    Leads d f way (bars d f doc) (.past x) (.done ((step? d way (start d f x)).map (·.current))) := by
  have exposed : Exposed d f a x := (mem_level tree).mp (by simp [line])
  obtain ⟨left, right, placed, leads⟩ := leads_beside tree anchor
  obtain ⟨rfl, rfl⟩ := placed.split_level tree exposed.shows line
  rw [step?_level tree owner anchor line]
  exact leads way

end

/-- For two shown nodes of a document, neither of them the document: one is the next sibling of the other
exactly if the other is its previous sibling; the search for a sibling ends after some turns, either way;
and forward steps go through the nodes after the first in document order that are shown and have the same
anchor, the nearest shown ancestor or else the document, each of them once. -/
theorem siblings_in_order (tree : d.Consistent) (f : Filter) (owner : d.documentOf? x = some doc)
    (owner' : d.documentOf? y = some doc) (inner : x ≠ doc) (inner' : y ≠ doc)
    (shows : shown d f x = true) (shows' : shown d f y = true) :
    ((nextSibling? d (start d f x)).map (·.current) = some y ↔
      (previousSibling? d (start d f y)).map (·.current) = some x) ∧
    (∀ way, ∃ turns, (turn d f way (bars d f doc))^[turns] (.past x) =
      .done ((step? d way (start d f x)).map (·.current))) ∧
    ∃ earlier later visited : List NodeId, d.inOrder doc = earlier ++ x :: later ∧
      (∀ count, (steps d .forward (start d f x) count).1 = visited.take count) ∧
      visited.Sublist later ∧ visited.Nodup ∧
      ∀ z, z ∈ visited ↔ z ∈ later ∧ shown d f z = true ∧ ∃ a, Anchors d f doc x a ∧ Anchors d f doc z a := by
  obtain ⟨a, before, after, anchor, line⟩ := exists_level tree owner inner shows
  refine ⟨⟨step?_back tree owner inner shows, step?_back tree owner' inner' shows'⟩,
    step?_ends tree owner anchor line, ?_⟩
  have member : x ∈ d.inOrder doc :=
    tree.mem_inOrder.mpr ((tree.within_document owner).2.eq_or_below.resolve_left inner)
  obtain ⟨earlier, later, order⟩ := List.append_of_mem member
  obtain ⟨left, right, placed, -⟩ := leads_beside tree anchor
  obtain ⟨rfl, rfl⟩ := placed.split_level tree shows line
  obtain ⟨ordered, members⟩ := placed.mem_after tree anchor order
  refine ⟨earlier, later, right, order, fun count => ?_, ordered, ?_, fun z => ?_⟩
  · rw [start_of_document owner]
    exact steps_eq (w := ⟨doc, f, x⟩) tree line anchor.within anchor.stops .forward count
  · have nodup := line ▸ level_nodup tree f a
    exact (List.nodup_cons.mp (List.nodup_append.mp nodup).2.1).2
  · rw [members]
    constructor
    · rintro ⟨late, -, shown, anchored⟩
      exact ⟨late, shown, a, anchor, anchored⟩
    · rintro ⟨late, shown, b, anchor', anchored⟩
      cases anchor.unique tree anchor'
      -- Below a shown node the anchor is that node, or lower.
      refine ⟨late, fun below => ?_, shown, anchored⟩
      exact absurd (anchored.hidden x below anchor.below) (by simp [shows])

/-- Two paragraphs in a document with a text in each, and a walk that shows texts only. -/
theorem siblings_in_order_texts : ∃ d : Dom, d.Consistent ∧ d.documentOf? 5 = some 1 ∧ d.documentOf? 7 = some 1 ∧
    shown d ⟨4⟩ 5 = true ∧ shown d ⟨4⟩ 7 = true ∧ (nextSibling? d (start d ⟨4⟩ 5)).map (·.current) = some 7 ∧
    (previousSibling? d (start d ⟨4⟩ 7)).map (·.current) = some 5 := by
  let text (parent : NodeId) : Dom.Node := { kind := 3, value := some "a", parent := some parent }
  let d : Dom :=
    { nodes := [(1, { kind := 9, children := [2] }), (2, { kind := 1, parent := some 1, children := [3, 4, 6] }),
        (3, { kind := 8, parent := some 2 }), (4, { kind := 1, parent := some 2, children := [5] }), (5, text 4),
        (6, { kind := 1, parent := some 2, children := [7] }), (7, text 6)] }
  have tree : d.Consistent := by decide +kernel
  have owner : d.documentOf? 5 = some 1 := by decide +kernel
  have owner' : d.documentOf? 7 = some 1 := by decide +kernel
  have shows : shown d ⟨4⟩ 5 = true := by decide +kernel
  have shows' : shown d ⟨4⟩ 7 = true := by decide +kernel
  have next : (nextSibling? d (start d ⟨4⟩ 5)).map (·.current) = some 7 := by decide +kernel
  have order := siblings_in_order tree ⟨4⟩ owner owner' (by decide) (by decide) shows shows'
  exact ⟨d, tree, owner, owner', shows, shows', next, order.1.mp next⟩

end Walk

end RemoteInspector
