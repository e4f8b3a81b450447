import RemoteInspector.Dom.Walk
import RemoteInspector.Proofs.Dom.Trees
/-!
Levels of a filtered tree: the shown nodes below a node that no other shown node separates from it, in document order.
-/
namespace RemoteInspector

namespace Walk

variable {before after : List NodeId}

open Dom

variable {d : Dom} {f : Filter} {n p c x y a root doc : NodeId} (tree : d.Consistent)

/-- The shown nodes of the tree at `n` with no shown node above them there. -/
def tops (d : Dom) (f : Filter) (n : NodeId) : List NodeId := frontier d f d.reach [n]

/-- The shown nodes below `n` with no other shown node between. -/
def level (d : Dom) (f : Filter) (n : NodeId) : List NodeId := (d.children n).flatMap (tops d f)

theorem frontier_succ (tree : d.Consistent) {fuel : Nat} {nodes : List NodeId}
    (enough : ∀ n ∈ nodes, d.nodes.length < d.rank n + fuel) :
    frontier d f (fuel + 1) nodes = frontier d f fuel nodes := by
  induction fuel generalizing nodes with
  | zero =>
    have none : nodes = [] := List.eq_nil_iff_forall_not_mem.mpr fun n member => by
      have deep := enough n member
      have bound := rank_le (d := d) n
      omega
    subst none
    rfl
  | succ fuel ih =>
    unfold frontier
    refine List.flatMap_congr fun n member => ?_
    have lower : ∀ c ∈ d.children n, d.nodes.length < d.rank c + fuel := fun c child => by
      have deep := enough n member
      have down := tree.rank_child child
      omega
    rw [ih lower]

theorem frontier_reach (nodes : List NodeId) : frontier d f d.reach nodes = nodes.flatMap (tops d f) := by
  obtain ⟨fuel, reached⟩ := d.reach_succ
  unfold tops
  rw [reached]
  simp only [frontier, List.flatMap_singleton]

section

include tree

/-- A shown node covers what is below it; a hidden one lets it be seen. -/
theorem tops_eq (n : NodeId) : tops d f n = if shown d f n then [n] else level d f n := by
  obtain ⟨fuel, reached⟩ := d.reach_succ
  have lower : ∀ c ∈ d.children n, d.nodes.length < d.rank c + fuel := fun c child => by
    have down := tree.rank_child child
    have enough := d.nodes_lt_reach
    omega
  have below : frontier d f fuel (d.children n) = level d f n := by
    rw [← frontier_succ tree lower, ← reached, frontier_reach, level]
  rw [tops, reached, frontier, List.flatMap_singleton, below]

theorem tops_of_shown (shows : shown d f n = true) : tops d f n = [n] := by
  rw [tops_eq tree, if_pos shows]

theorem tops_of_hidden (hidden : shown d f n = false) : tops d f n = level d f n := by
  rw [tops_eq tree, hidden, if_neg Bool.false_ne_true]

theorem level_eq_filter (bare : ∀ c, shown d f c = false → d.children c = []) (n : NodeId) :
    level d f n = (d.children n).filter (shown d f) := by
  rw [level]
  induction d.children n with
  | nil => rfl
  | cons c rest ih =>
    rw [List.flatMap_cons, ih, tops_eq tree]
    cases look : shown d f c with
    | true => simp [look]
    | false => simp [look, level, bare c look]

end

/-! ### All kinds of nodes shown -/

theorem shows_all {kind : Nat} (bounds : 0 < kind ∧ kind ≤ 32) : Filter.all.shows kind = true := by
  have bit : Filter.all.mask.testBit (kind - 1) = true := by
    have low : kind - 1 < 32 := by omega
    have mask : Filter.all.mask = 2 ^ 32 - 1 := rfl
    rw [mask, Nat.testBit_two_pow_sub_one]
    simpa using low
  have positive : kind ≠ 0 := by omega
  simp [Filter.shows, bit, positive, bounds.2]

theorem shown_iff (typed : d.Typed) : shown d .all n = true ↔ ∃ node, d.node? n = some node ∧
    (node.kind = NodeKind.text → node.value.elim false Text.allBlank = false) := by
  unfold shown info?
  cases found : d.node? n with
  | none => simp
  | some node =>
    have shows := shows_all (typed.kinds _ (typed.mem_nodes.mpr found))
    simp [shows, NodeInfo.isBlankText, imp_iff_not_or]

theorem shown_of_kind (typed : d.Typed) {node : Dom.Node} (found : d.node? n = some node)
    (kind : node.kind ≠ NodeKind.text) : shown d .all n = true :=
  (shown_iff typed).mpr ⟨node, found, fun text => absurd text kind⟩

theorem shown_of_child (typed : d.Typed) (child : c ∈ d.children n) : shown d .all n = true := by
  obtain ⟨node, found, listed⟩ := node_of_child child
  refine shown_of_kind typed found fun text => ?_
  rw [typed.texts _ (typed.mem_nodes.mpr found) text] at listed
  cases listed

theorem level_all (typed : d.Typed) (n : NodeId) : level d .all n = (d.children n).filter (shown d .all) := by
  refine level_eq_filter typed.toConsistent (fun c hidden => ?_) n
  refine List.eq_nil_iff_forall_not_mem.mpr fun x child => ?_
  exact absurd (shown_of_child typed child) (by simp [hidden])

theorem shown_of_level (typed : d.Typed) (member : c ∈ level d .all n) : shown d .all n = true := by
  rw [level_all typed] at member
  exact shown_of_child typed (List.mem_of_mem_filter member)

/-! ### Visible children -/

theorem visibleChildren_eq (plain : d.contentDocument? n = none) : visibleChildren d f n = level d f n := by
  rw [visibleChildren, plain]
  exact frontier_reach _

theorem visibleChildren_frame (content : d.contentDocument? n = some doc) : visibleChildren d f n = [doc] := by
  rw [visibleChildren, content]

/-! ### What is on a level -/

/-- A shown node below `n` with no other shown node between. -/
structure Exposed (d : Dom) (f : Filter) (n x : NodeId) : Prop where
  shows : shown d f x = true
  below : d.Below x n
  hidden : ∀ y, d.Below x y → d.Below y n → shown d f y = false

section

include tree

theorem mem_tops : x ∈ tops d f n ↔
    shown d f x = true ∧ d.Within x n ∧ ∀ y, d.Below x y → d.Within y n → shown d f y = false := by
  induction n using tree.from_below with
  | step n ih =>
    cases look : shown d f n with
    | true =>
      rw [tops_of_shown tree look, List.mem_singleton]
      constructor
      · rintro rfl
        exact ⟨look, .refl, fun y above within =>
          absurd (within.eq_or_below.elim (fun same => same ▸ above) above.trans) (Below.irrefl tree _)⟩
      · rintro ⟨_, within, hidden⟩
        rcases within.eq_or_below with same | below
        · exact same
        · exact absurd (hidden n below .refl) (by simp [look])
    | false =>
      rw [tops_of_hidden tree look, level, List.mem_flatMap]
      constructor
      · rintro ⟨c, child, member⟩
        obtain ⟨shows, within, hidden⟩ := (ih c child).mp member
        have parent := tree.parent_iff.mpr child
        refine ⟨shows, (Below.of_child within parent).within, fun y above inside => ?_⟩
        rcases inside.eq_or_below with rfl | below
        · exact look
        · exact hidden y above (.of_between tree parent within above.within below)
      · rintro ⟨shows, within, hidden⟩
        rcases within.eq_or_below with rfl | below
        · rw [look] at shows
          cases shows
        · obtain ⟨c, parent, inside⟩ := below.cases_child
          refine ⟨c, tree.parent_iff.mp parent, (ih c (tree.parent_iff.mp parent)).mpr ⟨shows, inside, ?_⟩⟩
          exact fun y above deeper => hidden y above (deeper.tail parent)

theorem mem_level : x ∈ level d f n ↔ Exposed d f n x := by
  rw [level, List.mem_flatMap]
  constructor
  · rintro ⟨c, child, member⟩
    obtain ⟨shows, within, hidden⟩ := (mem_tops tree).mp member
    have parent := tree.parent_iff.mpr child
    exact ⟨shows, .of_child within parent, fun y above below =>
      hidden y above (.of_between tree parent within above.within below)⟩
  · rintro ⟨shows, below, hidden⟩
    obtain ⟨c, parent, within⟩ := below.cases_child
    exact ⟨c, tree.parent_iff.mp parent, (mem_tops tree).mpr ⟨shows, within, fun y above inside =>
      hidden y above (.of_child inside parent)⟩⟩

omit tree in
theorem flatMap_sublist {g h : NodeId → List NodeId} {nodes : List NodeId}
    (each : ∀ n ∈ nodes, (g n).Sublist (h n)) : (nodes.flatMap g).Sublist (nodes.flatMap h) := by
  induction nodes with
  | nil => exact .slnil
  | cons n rest ih =>
    rw [List.flatMap_cons, List.flatMap_cons]
    exact (each n List.mem_cons_self).append (ih fun m member => each m (List.mem_cons_of_mem _ member))

theorem tops_sublist (f : Filter) (n : NodeId) : (tops d f n).Sublist (n :: d.inOrder n) := by
  induction n using tree.from_below with
  | step n ih =>
    rw [tops_eq tree]
    split
    · exact List.singleton_sublist.mpr List.mem_cons_self
    · rw [tree.inOrder_eq]
      exact (flatMap_sublist ih).cons n

theorem level_sublist (f : Filter) (n : NodeId) : (level d f n).Sublist (d.inOrder n) := by
  rw [tree.inOrder_eq]
  exact flatMap_sublist fun c _ => tops_sublist tree f c

theorem level_nodup (f : Filter) (n : NodeId) : (level d f n).Nodup :=
  (level_sublist tree f n).nodup (tree.nodup_inOrder n)

theorem length_level_le (f : Filter) (n : NodeId) : (level d f n).length ≤ d.nodes.length := by
  have listed : level d f n ⊆ d.nodes.keys := fun x member => ((mem_level tree).mp member).below.mem_keys
  simpa [Table.keys] using ((level_nodup tree f n).subperm listed).length_le

end

/-! ### Anchors -/

theorem split_unique {before' after' : List NodeId} (nodup : (before ++ x :: after).Nodup)
    (same : before ++ x :: after = before' ++ x :: after') : before = before' ∧ after = after' := by
  obtain ⟨-, rest, apart⟩ := List.nodup_append.mp nodup
  have early : x ∉ before := fun member => apart x member x List.mem_cons_self rfl
  have late : x ∉ after := (List.nodup_cons.mp rest).1
  obtain ⟨left, -, right⟩ := (List.append_cons_inj_of_notMem early late).mp same
  exact ⟨left, right⟩

/-- The nearest place above `x` where a walk below `root` stops: a shown node, or else the root. -/
structure Anchors (d : Dom) (f : Filter) (root x a : NodeId) : Prop where
  below : d.Below x a
  within : d.Within a root
  stops : a = root ∨ shown d f a = true
  hidden : ∀ y, d.Below x y → d.Below y a → shown d f y = false

theorem Anchors.exposed (anchor : Anchors d f root x a) (shows : shown d f x = true) : Exposed d f a x :=
  ⟨shows, anchor.below, anchor.hidden⟩

theorem Exposed.anchors (exposed : Exposed d f a x) (within : d.Within a root)
    (stops : a = root ∨ shown d f a = true) : Anchors d f root x a :=
  ⟨exposed.below, within, stops, exposed.hidden⟩

theorem Anchors.of_parent (tree : d.Consistent) (parent : d.parent? x = some p) (within : d.Within p root)
    (stops : p = root ∨ shown d f p = true) : Anchors d f root x p :=
  ⟨.single parent, within, stops, fun y above below => by
    -- There is no room between a node and its parent.
    have low := above.rank_lt tree
    have high := below.rank_lt tree
    have up := tree.rank_parent parent
    omega⟩

theorem Anchors.of_hidden_parent (parent : d.parent? x = some p) (hidden : shown d f p = false)
    (anchor : Anchors d f root p a) : Anchors d f root x a := by
  refine ⟨.of_parent parent anchor.below.within, anchor.within, anchor.stops, fun y above below => ?_⟩
  obtain ⟨q, parent', within⟩ := above.cases_parent
  cases parent.symm.trans parent'
  rcases within.eq_or_below with rfl | higher
  · exact hidden
  · exact anchor.hidden y higher below

theorem Anchors.parent (anchor : Anchors d f root x a) (parent : d.parent? x = some p)
    (passed : ¬ (p = root ∨ shown d f p = true)) : Anchors d f root p a := by
  obtain ⟨q, parent', within⟩ := anchor.below.cases_parent
  cases parent.symm.trans parent'
  have higher : d.Below p a := within.eq_or_below.resolve_left fun same => passed (same ▸ anchor.stops)
  exact ⟨higher, anchor.within, anchor.stops, fun y above below =>
    anchor.hidden y (.trans (.single parent) above) below⟩

theorem exists_anchor (tree : d.Consistent) (f : Filter) (below : d.Below x root) : ∃ a, Anchors d f root x a := by
  induction x using tree.from_above with
  | step x ih =>
    obtain ⟨p, parent, within⟩ := below.cases_parent
    by_cases stops : p = root ∨ shown d f p = true
    · exact ⟨p, .of_parent tree parent within stops⟩
    · obtain ⟨other, hidden⟩ := not_or.mp stops
      obtain ⟨a, anchor⟩ := ih p parent (within.eq_or_below.resolve_left other)
      exact ⟨a, .of_hidden_parent parent (by simpa using hidden) anchor⟩

theorem Anchors.unique (tree : d.Consistent) {b : NodeId} (anchor : Anchors d f root x a)
    (anchor' : Anchors d f root x b) : a = b := by
  have stop {a b : NodeId} (anchor : Anchors d f root x a) (anchor' : Anchors d f root x b) : ¬ d.Below a b := by
    intro between
    rcases anchor.stops with rfl | shows
    · rcases anchor'.within.eq_or_below with rfl | below
      · exact Below.irrefl tree _ between
      · exact Below.irrefl tree _ (between.trans below)
    · exact absurd (anchor'.hidden a anchor.below between) (by simp [shows])
  rcases anchor.below.within.comparable anchor'.below.within with within | within
  · exact within.eq_or_below.resolve_right (stop anchor anchor')
  · exact (within.eq_or_below.resolve_right (stop anchor' anchor)).symm

/-- A node on the level of its anchor: the shown nodes before it, those of its own tree, and those after
all that is below it. -/
structure Placed (d : Dom) (f : Filter) (a x : NodeId) (before after : List NodeId) : Prop where
  spread : level d f a = before ++ tops d f x ++ after
  ordered : ∃ earlier later, d.inOrder a = earlier ++ (x :: d.inOrder x) ++ later ∧
    before.Sublist earlier ∧ after.Sublist later

include tree

theorem Placed.of_children {left right : List NodeId}
    (line : d.children p = left ++ x :: right) :
    Placed d f p x (left.flatMap (tops d f)) (right.flatMap (tops d f)) where
  spread := by rw [level, line, List.flatMap_append, List.flatMap_cons, ← List.append_assoc]
  ordered := by
    refine ⟨left.flatMap fun c => c :: d.inOrder c, right.flatMap fun c => c :: d.inOrder c, ?_,
      flatMap_sublist fun c _ => tops_sublist tree f c, flatMap_sublist fun c _ => tops_sublist tree f c⟩
    rw [tree.inOrder_eq, line, List.flatMap_append, List.flatMap_cons, ← List.append_assoc]

theorem Placed.of_hidden {before' after' : List NodeId} (hidden : shown d f p = false)
    (outer : Placed d f a p before after) (inner : Placed d f p x before' after') :
    Placed d f a x (before ++ before') (after' ++ after) := by
  obtain ⟨earlier, later, order, left, right⟩ := outer.ordered
  obtain ⟨earlier', later', order', left', right'⟩ := inner.ordered
  constructor
  · rw [outer.spread, tops_of_hidden tree hidden, inner.spread]
    simp
  · exact ⟨earlier ++ p :: earlier', later' ++ later, by rw [order, order']; simp,
      left.append (left'.cons p), right'.append right⟩

theorem Placed.in_tree (placed : Placed d f a x before after) (within : d.Within a root) :
    ∃ earlier later, d.inOrder root = earlier ++ (x :: d.inOrder x) ++ later ∧
      before.Sublist earlier ∧ after.Sublist later := by
  obtain ⟨earlier, later, order, left, right⟩ := placed.ordered
  rcases within.eq_or_below with rfl | below
  · exact ⟨earlier, later, order, left, right⟩
  · obtain ⟨first, last, outer⟩ := tree.inOrder_around below
    refine ⟨first ++ a :: earlier, later ++ last, by rw [outer, order]; simp, ?_, ?_⟩
    · exact left.trans ((List.sublist_cons_self a earlier).trans (List.sublist_append_right first _))
    · exact right.trans (List.sublist_append_left later last)

/-- What comes after a node on its level, in terms of the whole tree: the shown nodes of the same anchor
that follow the node and are not below it. -/
theorem Placed.mem_after {earlier later : List NodeId} (placed : Placed d f a x before after)
    (anchor : Anchors d f root x a) (order : d.inOrder root = earlier ++ x :: later) :
    after.Sublist later ∧ ∀ y, y ∈ after ↔ y ∈ later ∧ ¬ d.Below y x ∧ shown d f y = true ∧ Anchors d f root y a := by
  obtain ⟨earlier', later', order', left, right⟩ := placed.in_tree tree anchor.within
  have nodup := tree.nodup_inOrder root
  rw [order] at nodup order'
  have split : earlier = earlier' ∧ later = d.inOrder x ++ later' := by
    have same : earlier ++ x :: later = earlier' ++ x :: (d.inOrder x ++ later') := by simpa using order'
    exact split_unique nodup same
  obtain ⟨rfl, rfl⟩ := split
  have apart : ∀ y ∈ earlier, y ∉ d.inOrder x ++ later' := fun y early late =>
    (List.nodup_append.mp nodup).2.2 y early y (List.mem_cons_of_mem _ late) rfl
  have inner : (d.inOrder x ++ later').Nodup := (List.nodup_cons.mp (List.nodup_append.mp nodup).2.1).2
  have self : x ∉ d.inOrder x ++ later' := (List.nodup_cons.mp (List.nodup_append.mp nodup).2.1).1
  refine ⟨right.trans (List.sublist_append_right _ _), fun y => ⟨fun member => ?_, ?_⟩⟩
  · have late := right.subset member
    have exposed : Exposed d f a y :=
      (mem_level tree).mp (by rw [placed.spread]; exact List.mem_append_right _ member)
    refine ⟨List.mem_append_right _ late, fun below => ?_, exposed.shows, ?_⟩
    · exact (List.nodup_append.mp inner).2.2 y (tree.mem_inOrder.mpr below) y late rfl
    · exact exposed.anchors anchor.within anchor.stops
  · rintro ⟨late, outside, shows, anchored⟩
    have member : y ∈ level d f a := (mem_level tree).mpr (anchored.exposed shows)
    rw [placed.spread] at member
    rcases List.mem_append.mp member with member | member
    · rcases List.mem_append.mp member with early | own
      · exact absurd late (apart y (left.subset early))
      · rcases ((mem_tops tree).mp own).2.1.eq_or_below with rfl | below
        · exact absurd late self
        · exact absurd below outside
    · exact member

end Walk

end RemoteInspector
