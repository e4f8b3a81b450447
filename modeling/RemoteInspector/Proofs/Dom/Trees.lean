import Mathlib.Data.List.Nodup
import Mathlib.Data.List.Perm.Subperm
import Mathlib.Logic.Relation
import Mathlib.Tactic.MkIffOfInductiveProp
import RemoteInspector.Dom.Edit
import RemoteInspector.Proofs.Table
/-!
Trees of parents and children: every line of parents ends, and the nodes below a node stand in document order.
-/
namespace RemoteInspector

/-! ### Climbing along links -/

namespace Climb

variable {link : NodeId → Option NodeId} {n p : NodeId} {fuel : Nat}

def nth (link : NodeId → Option NodeId) : Nat → NodeId → Option NodeId
  | 0, n => some n
  | steps + 1, n => (link n).bind (nth link steps)

def count (link : NodeId → Option NodeId) : Nat → NodeId → Nat
  | 0, _ => 0
  | fuel + 1, n => (link n).elim 0 fun p => count link fuel p + 1

theorem count_le (fuel : Nat) (n : NodeId) : count link fuel n ≤ fuel := by
  induction fuel generalizing n with
  | zero => exact Nat.le_refl 0
  | succ fuel ih =>
    unfold count
    cases link n with
    | none => exact Nat.zero_le _
    | some p => exact Nat.succ_le_succ (ih p)

theorem count_succ (ended : nth link fuel n = none) : count link (fuel + 1) n = count link fuel n := by
  induction fuel generalizing n with
  | zero => cases ended
  | succ fuel ih =>
    unfold count
    cases up : link n with
    | none => rfl
    | some p =>
      have rest : nth link fuel p = none := by simpa only [nth, up, Option.bind_some] using ended
      simp only [Option.elim_some, ih rest]

theorem count_link (ended : nth link fuel n = none) (up : link n = some p) :
    count link fuel n = count link fuel p + 1 := by
  calc count link fuel n = count link (fuel + 1) n := (count_succ ended).symm
    _ = count link fuel p + 1 := by simp only [count, up, Option.elim_some]

end Climb

namespace Dom

variable {d : Dom} {n p c x y : NodeId}

/-- Links between parents and children that go both ways, documents at the top and in the frames, and no
line of parents that runs in a circle. -/
@[mk_iff] structure Consistent (d : Dom) : Prop where
  keys_nodup : d.nodes.keys.Nodup
  parent_of_child : ∀ e ∈ d.nodes, ∀ c ∈ e.2.children, d.parent? c = some e.1
  child_of_parent : ∀ e ∈ d.nodes, ∀ p ∈ e.2.parent, e.1 ∈ d.children p
  nodup : ∀ e ∈ d.nodes, e.2.children.Nodup
  documents : ∀ e ∈ d.nodes, e.2.kind = NodeKind.document → e.2.parent = none
  contents : ∀ e ∈ d.nodes, ∀ doc ∈ e.2.content, d.isDocument doc = true
  ends : ∀ e ∈ d.nodes, Climb.nth d.parent? d.nodes.length e.1 = none

instance (d : Dom) : Decidable d.Consistent := decidable_of_iff _ (consistent_iff d).symm

/-- Moreover kinds that a filter can name, and nothing below text. -/
@[mk_iff] structure Typed (d : Dom) : Prop extends Consistent d where
  kinds : ∀ e ∈ d.nodes, 0 < e.2.kind ∧ e.2.kind ≤ 32
  texts : ∀ e ∈ d.nodes, e.2.kind = NodeKind.text → e.2.children = []

instance (d : Dom) : Decidable d.Typed := decidable_of_iff _ (typed_iff d).symm

@[mk_iff] structure Framed (d : Dom) : Prop extends Typed d where
  frames : ∀ e ∈ d.nodes, ∀ e' ∈ d.nodes, ∀ doc ∈ e.2.content, e'.2.content = some doc → e'.1 = e.1

instance (d : Dom) : Decidable d.Framed := decidable_of_iff _ (framed_iff d).symm

theorem isDocument_iff : d.isDocument n = true ↔ ∃ node, d.node? n = some node ∧ node.kind = NodeKind.document := by
  unfold isDocument info?
  cases d.node? n with
  | none => simp
  | some node => simp [NodeInfo.isDocument]

theorem children_of_node {node : Node} (found : d.node? n = some node) : d.children n = node.children := by
  rw [children, found, Option.elim_some]

theorem node_of_child (member : c ∈ d.children n) : ∃ node, d.node? n = some node ∧ c ∈ node.children := by
  unfold children at member
  cases found : d.node? n with
  | none => simp [found] at member
  | some node => exact ⟨node, rfl, by simpa [found] using member⟩

theorem parent?_eq_some : d.parent? n = some p ↔ ∃ node, d.node? n = some node ∧ node.parent = some p :=
  Option.bind_eq_some_iff

theorem key_of_child (member : c ∈ d.children n) : n ∈ d.nodes.keys := by
  obtain ⟨node, found, -⟩ := node_of_child member
  exact Table.mem_keys_iff.mpr ⟨node, found⟩

theorem key_of_parent (parent : d.parent? n = some p) : n ∈ d.nodes.keys := by
  obtain ⟨node, found, -⟩ := parent?_eq_some.mp parent
  exact Table.mem_keys_iff.mpr ⟨node, found⟩

theorem contentDocument?_eq_some {f doc : NodeId} :
    d.contentDocument? f = some doc ↔ ∃ node, d.node? f = some node ∧ node.content = some doc :=
  Option.bind_eq_some_iff

theorem top_of_no_parent (loose : d.parent? n = none) (fuel : Nat) : d.top fuel n = n := by
  cases fuel with
  | zero => rfl
  | succ fuel => simp [top, loose]

theorem nodes_lt_reach (d : Dom) : d.nodes.length < d.reach := by
  unfold reach
  calc d.nodes.length < d.nodes.length + 2 := by omega
    _ ≤ (d.nodes.length + 2) * (d.nodes.length + 2) := Nat.le_mul_of_pos_left _ (by omega)

theorem reach_succ (d : Dom) : ∃ fuel, d.reach = fuel + 1 :=
  Nat.exists_eq_succ_of_ne_zero (Nat.ne_of_gt (Nat.zero_lt_of_lt d.nodes_lt_reach))

def rank (d : Dom) (n : NodeId) : Nat := Climb.count d.parent? d.nodes.length n

theorem rank_le (n : NodeId) : d.rank n ≤ d.nodes.length := Climb.count_le _ _

/-- A node that stands below another by the line of parents. -/
def Below (d : Dom) : NodeId → NodeId → Prop := Relation.TransGen fun c p => d.parent? c = some p

def Within (d : Dom) : NodeId → NodeId → Prop := Relation.ReflTransGen fun c p => d.parent? c = some p

/-- The nodes below a node in document order. -/
def inOrder (d : Dom) (n : NodeId) : List NodeId := d.descendants d.reach n

namespace Consistent

section

variable (tree : d.Consistent)

include tree

theorem mem_nodes {node : Node} : (n, node) ∈ d.nodes ↔ d.node? n = some node :=
  (Table.get?_eq_some_iff tree.keys_nodup).symm

theorem parent_iff : d.parent? c = some p ↔ c ∈ d.children p := by
  constructor
  · intro parent
    obtain ⟨node, found, link⟩ := parent?_eq_some.mp parent
    exact tree.child_of_parent _ (tree.mem_nodes.mpr found) p link
  · intro member
    obtain ⟨node, found, listed⟩ := node_of_child member
    exact tree.parent_of_child _ (tree.mem_nodes.mpr found) c listed

theorem children_nodup (n : NodeId) : (d.children n).Nodup := by
  unfold children
  cases found : d.node? n with
  | none => exact List.nodup_nil
  | some node => exact tree.nodup _ (tree.mem_nodes.mpr found)

theorem parent_document (document : d.isDocument n = true) : d.parent? n = none := by
  obtain ⟨node, found, kind⟩ := isDocument_iff.mp document
  rw [parent?, found, Option.bind_some]
  exact tree.documents _ (tree.mem_nodes.mpr found) kind

theorem content_document {doc : NodeId} (content : d.contentDocument? n = some doc) : d.isDocument doc = true := by
  obtain ⟨node, found, link⟩ := contentDocument?_eq_some.mp content
  exact tree.contents _ (tree.mem_nodes.mpr found) doc link

theorem rank_parent (parent : d.parent? n = some p) : d.rank n = d.rank p + 1 := by
  obtain ⟨node, found, -⟩ := parent?_eq_some.mp parent
  exact Climb.count_link (tree.ends _ (tree.mem_nodes.mpr found)) parent

theorem rank_child (child : c ∈ d.children n) : d.rank c = d.rank n + 1 :=
  tree.rank_parent (tree.parent_iff.mpr child)

/-- What holds of a node as soon as it holds of its children holds of every node. -/
theorem from_below {P : NodeId → Prop} (step : ∀ n, (∀ c ∈ d.children n, P c) → P n) (n : NodeId) : P n := by
  induction height : d.nodes.length - d.rank n using Nat.strongRecOn generalizing n with
  | ind height ih =>
    refine step n fun c child => ih _ ?_ c rfl
    have deeper := tree.rank_child child
    have bound := rank_le (d := d) c
    omega

/-- What holds of a node as soon as it holds of its parent holds of every node. -/
theorem from_above {P : NodeId → Prop} (step : ∀ n, (∀ p, d.parent? n = some p → P p) → P n) (n : NodeId) : P n := by
  induction depth : d.rank n using Nat.strongRecOn generalizing n with
  | ind depth ih =>
    refine step n fun p parent => ih _ ?_ p rfl
    have deeper := tree.rank_parent parent
    omega

end

end Consistent

/-! ### Below a node -/

namespace Below

theorem rank_lt (tree : d.Consistent) (below : d.Below x n) : d.rank n < d.rank x := by
  induction below with
  | single parent => exact Nat.lt_of_lt_of_eq (Nat.lt_succ_self _) (tree.rank_parent parent).symm
  | tail _ parent ih =>
    have up := tree.rank_parent parent
    omega

theorem irrefl (tree : d.Consistent) (n : NodeId) : ¬ d.Below n n := fun below =>
  Nat.lt_irrefl _ (below.rank_lt tree)

theorem within (below : d.Below x n) : d.Within x n := Relation.TransGen.to_reflTransGen below

theorem cases_parent (below : d.Below x n) : ∃ p, d.parent? x = some p ∧ d.Within p n :=
  Relation.TransGen.head'_iff.mp below

theorem cases_child (below : d.Below x n) : ∃ c, d.parent? c = some n ∧ d.Within x c := by
  obtain ⟨c, within, parent⟩ := Relation.TransGen.tail'_iff.mp below
  exact ⟨c, parent, within⟩

theorem of_parent (parent : d.parent? x = some p) (within : d.Within p n) : d.Below x n :=
  Relation.TransGen.head' parent within

theorem of_child (within : d.Within x c) (parent : d.parent? c = some n) : d.Below x n :=
  Relation.TransGen.tail' within parent

theorem mem_keys (below : d.Below x n) : x ∈ d.nodes.keys := by
  obtain ⟨p, parent, -⟩ := below.cases_parent
  exact key_of_parent parent

theorem trans (below : d.Below x y) (further : d.Below y n) : d.Below x n := Relation.TransGen.trans below further

end Below

namespace Within

theorem eq_or_below (within : d.Within x n) : x = n ∨ d.Below x n := by
  rcases Relation.ReflTransGen.cases_head within with same | ⟨p, parent, rest⟩
  · exact .inl same
  · exact .inr (.of_parent parent rest)

theorem below_trans (within : d.Within x y) (below : d.Below y n) : d.Below x n :=
  Relation.TransGen.trans_right within below

theorem comparable (first : d.Within x y) (second : d.Within x n) : d.Within y n ∨ d.Within n y :=
  Relation.ReflTransGen.total_of_right_unique
    (fun _ _ _ one other => Option.some.inj (one.symm.trans other)) first second

theorem of_between (tree : d.Consistent) (parent : d.parent? c = some n) (within : d.Within x c)
    (above : d.Within x y) (below : d.Below y n) : d.Within y c := by
  rcases above.comparable within with inside | outside
  · exact inside
  · rcases outside.eq_or_below with same | strictly
    · exact same ▸ .refl
    · -- There is no room between a node and its parent.
      have up := tree.rank_parent parent
      have low := strictly.rank_lt tree
      have high := below.rank_lt tree
      omega

theorem child_unique (tree : d.Consistent) {c' : NodeId} (parent : d.parent? c = some n)
    (parent' : d.parent? c' = some n) (within : d.Within x c) (within' : d.Within x c') : c = c' := by
  have inside := Within.of_between tree parent within within' (.single parent')
  rcases inside.eq_or_below with same | below
  · exact same.symm
  · have low := below.rank_lt tree
    have up := tree.rank_parent parent
    have up' := tree.rank_parent parent'
    omega

end Within

/-! ### The document of a node -/

namespace Consistent

variable {doc : NodeId}

theorem rank_lt_reach (n : NodeId) : d.rank n < d.reach := Nat.lt_of_le_of_lt (rank_le n) d.nodes_lt_reach

section

variable (tree : d.Consistent)

include tree

theorem top_succ {fuel : Nat} (enough : d.rank n < fuel) : d.top (fuel + 1) n = d.top fuel n := by
  induction fuel generalizing n with
  | zero => omega
  | succ fuel ih =>
    unfold top
    cases parent : d.parent? n with
    | none => rfl
    | some p =>
      have := tree.rank_parent parent
      exact ih (by omega)

theorem top_of_parent (parent : d.parent? n = some p) : d.top d.reach n = d.top d.reach p := by
  calc d.top d.reach n = d.top (d.reach + 1) n := (tree.top_succ (rank_lt_reach n)).symm
    _ = d.top d.reach p := by rw [top, parent]

theorem within_top (n : NodeId) : d.Within n (d.top d.reach n) := by
  induction n using tree.from_above with
  | step n ih =>
    cases parent : d.parent? n with
    | none =>
      rw [top_of_no_parent parent]
      exact .refl
    | some p =>
      rw [tree.top_of_parent parent]
      exact .head parent (ih p parent)

theorem parent_top (n : NodeId) : d.parent? (d.top d.reach n) = none := by
  induction n using tree.from_above with
  | step n ih =>
    cases parent : d.parent? n with
    | none => rwa [top_of_no_parent parent]
    | some p =>
      rw [tree.top_of_parent parent]
      exact ih p parent

theorem documentOf?_eq (n : NodeId) : d.documentOf? n =
    if d.isDocument (d.top d.reach n) then some (d.top d.reach n) else none := by
  unfold documentOf? ownerDocument?
  by_cases document : d.isDocument n
  · simp [document, top_of_no_parent (tree.parent_document document)]
  · cases found : d.node? n with
    | none =>
      have loose : d.parent? n = none := by rw [parent?, found, Option.bind_none]
      simp [exists?, found, document, top_of_no_parent loose]
    | some node =>
      by_cases top : d.isDocument (d.top d.reach n) <;> simp [exists?, found, document, top]

theorem documentOf?_parent (parent : d.parent? n = some p) : d.documentOf? p = d.documentOf? n := by
  rw [tree.documentOf?_eq, tree.documentOf?_eq, tree.top_of_parent parent]

theorem documentOf?_within (within : d.Within x n) : d.documentOf? x = d.documentOf? n := by
  induction within with
  | refl => rfl
  | tail _ parent ih => exact ih.trans (tree.documentOf?_parent parent).symm

theorem documentOf?_document (document : d.isDocument n = true) : d.documentOf? n = some n := by
  rw [tree.documentOf?_eq, top_of_no_parent (tree.parent_document document), if_pos document]

theorem within_document (owner : d.documentOf? n = some doc) : d.isDocument doc = true ∧ d.Within n doc := by
  rw [tree.documentOf?_eq] at owner
  split at owner
  · cases owner
    exact ⟨‹_›, tree.within_top n⟩
  · cases owner

end

end Consistent

/-! ### Document order -/

namespace Consistent

section

variable (tree : d.Consistent)

include tree

theorem descendants_succ {fuel : Nat} (enough : d.nodes.length < d.rank n + fuel) :
    d.descendants (fuel + 1) n = d.descendants fuel n := by
  induction fuel generalizing n with
  | zero =>
    have bound := rank_le (d := d) n
    omega
  | succ fuel ih =>
    unfold descendants
    refine List.flatMap_congr fun c child => ?_
    have deeper := tree.rank_child child
    rw [ih (by omega)]

theorem inOrder_eq (n : NodeId) : d.inOrder n = (d.children n).flatMap fun c => c :: d.inOrder c := by
  have enough : d.nodes.length < d.rank n + d.reach := Nat.lt_add_left _ d.nodes_lt_reach
  calc d.inOrder n = d.descendants (d.reach + 1) n := (tree.descendants_succ enough).symm
    _ = _ := rfl

theorem mem_inOrder : x ∈ d.inOrder n ↔ d.Below x n := by
  induction n using tree.from_below with
  | step n ih =>
    rw [tree.inOrder_eq]
    simp only [List.mem_flatMap, List.mem_cons]
    constructor
    · rintro ⟨c, child, rfl | deeper⟩
      · exact .single (tree.parent_iff.mpr child)
      · exact .of_child ((ih c child).mp deeper).within (tree.parent_iff.mpr child)
    · intro below
      obtain ⟨c, parent, within⟩ := below.cases_child
      have child := tree.parent_iff.mp parent
      exact ⟨c, child, within.eq_or_below.imp_right (ih c child).mpr⟩

theorem mem_cons_inOrder : x ∈ n :: d.inOrder n ↔ d.Within x n := by
  rw [List.mem_cons, tree.mem_inOrder]
  exact ⟨fun either => either.elim (fun same => same ▸ .refl) Below.within, Within.eq_or_below⟩

theorem nodup_inOrder (n : NodeId) : (d.inOrder n).Nodup := by
  induction n using tree.from_below with
  | step n ih =>
    rw [tree.inOrder_eq, List.nodup_flatMap]
    constructor
    · intro c child
      refine List.nodup_cons.mpr ⟨fun below => ?_, ih c child⟩
      exact Below.irrefl tree c (tree.mem_inOrder.mp below)
    · -- Children are distinct, and so is all that stands below them.
      refine (List.Nodup.pairwise_of_forall_ne (tree.children_nodup n)) fun c child c' child' other => ?_
      intro x inside inside'
      exact other (Within.child_unique tree (tree.parent_iff.mpr child) (tree.parent_iff.mpr child')
        (tree.mem_cons_inOrder.mp inside) (tree.mem_cons_inOrder.mp inside'))

theorem inOrder_around (below : d.Below x n) : ∃ before after, d.inOrder n = before ++ (x :: d.inOrder x) ++ after := by
  have around_child {c n : NodeId} (parent : d.parent? c = some n) :
      ∃ before after, d.inOrder n = before ++ (c :: d.inOrder c) ++ after := by
    obtain ⟨left, right, line⟩ := List.append_of_mem (tree.parent_iff.mp parent)
    exact ⟨_, _, by rw [tree.inOrder_eq, line, List.flatMap_append, List.flatMap_cons, ← List.append_assoc]⟩
  induction below with
  | single parent => exact around_child parent
  | tail _ parent ih =>
    obtain ⟨before, after, inner⟩ := ih
    obtain ⟨before', after', outer⟩ := around_child parent
    rw [inner] at outer
    exact ⟨before' ++ _ :: before, after ++ after', by simpa using outer⟩

end

end Consistent

/-! ### Outlines -/

def Node.bare (node : Node) : Node := { node with value := none }

def outline (d : Dom) : Dom := { d with nodes := d.nodes.map fun e => (e.1, e.2.bare) }

theorem node?_outline (d : Dom) (n : NodeId) : d.outline.node? n = (d.node? n).map Node.bare :=
  Table.get?_map _ _ _

theorem parent?_outline (d : Dom) (n : NodeId) : d.outline.parent? n = d.parent? n := by
  rw [parent?, parent?, node?_outline]
  cases d.node? n <;> rfl

theorem children_outline (d : Dom) (n : NodeId) : d.outline.children n = d.children n := by
  rw [children, children, node?_outline]
  cases d.node? n <;> rfl

theorem isDocument_outline (d : Dom) (n : NodeId) : d.outline.isDocument n = d.isDocument n := by
  rw [isDocument, isDocument, info?, info?, node?_outline]
  cases d.node? n <;> rfl

theorem outline_update {f : Node → Node} (bare : ∀ node, (f node).bare = node.bare) (d : Dom) (n : NodeId) :
    (d.update n f).outline = d.outline := by
  have nodes (entries : Table NodeId Node) :
      ((entries.modify n f).map fun e => (e.1, e.2.bare)) = entries.map fun e => (e.1, e.2.bare) := by
    induction entries with
    | nil => rfl
    | cons e rest ih =>
      rw [Table.modify]
      split
      · simp [bare]
      · rw [List.map_cons, List.map_cons, ih]
  simp only [outline, update, nodes]

theorem framed_outline (d : Dom) : d.outline.Framed ↔ d.Framed := by
  have keys : d.outline.nodes.keys = d.nodes.keys := by simp [outline, Table.keys]
  have length : d.outline.nodes.length = d.nodes.length := List.length_map _
  have parents : d.outline.parent? = d.parent? := funext (parent?_outline d)
  have entries {P : NodeId × Node → Prop} : (∀ e ∈ d.outline.nodes, P e) ↔ ∀ e ∈ d.nodes, P (e.1, e.2.bare) :=
    List.forall_mem_map
  simp only [framed_iff, typed_iff, consistent_iff, keys, length, parents, entries, children_outline, isDocument_outline]
  rfl

section

variable {d' : Dom} (same : d'.outline = d.outline)

include same

theorem Framed.of_outline (framed : d.Framed) : d'.Framed := by
  rwa [← framed_outline, same, framed_outline]

theorem parent?_of_outline (n : NodeId) : d'.parent? n = d.parent? n := by
  rw [← parent?_outline, same, parent?_outline]

theorem isDocument_of_outline (n : NodeId) : d'.isDocument n = d.isDocument n := by
  rw [← isDocument_outline, same, isDocument_outline]

end

end Dom

end RemoteInspector
