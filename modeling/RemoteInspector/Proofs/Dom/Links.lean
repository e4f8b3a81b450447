import RemoteInspector.Proofs.Dom.Trees
/-!
Consistent host trees: `up` leads from a node to its parent and from a loaded document to its frame.
-/
namespace RemoteInspector

namespace Dom

variable {d : Dom} {n p c f doc : NodeId}

/-- What stands directly above a node: its parent, or for a document the frame that embeds it. -/
def up (d : Dom) (n : NodeId) : Option NodeId :=
  match d.parent? n with
  | some p => some p
  | none => if d.isDocument n then d.embeddingFrame? n else none

def above (d : Dom) : Nat → NodeId → Option NodeId
  | 0, n => some n
  | steps + 1, n => (d.up n).bind (above d steps)

/-- Links that go both ways, documents at the top, frames without children, and no way up that runs in
a circle. Counts of children fit in 64 bits, as they do on a host. -/
@[mk_iff] structure WellFormed (d : Dom) : Prop where
  keys_nodup : d.nodes.keys.Nodup
  parent_of_child : ∀ e ∈ d.nodes, ∀ c ∈ e.2.children, d.parent? c = some e.1
  child_of_parent : ∀ e ∈ d.nodes, ∀ p ∈ e.2.parent, e.1 ∈ d.children p
  nodup : ∀ e ∈ d.nodes, e.2.children.Nodup
  counted : ∀ e ∈ d.nodes, e.2.children.length < UInt64.size
  kinds : ∀ e ∈ d.nodes, 0 < e.2.kind ∧ e.2.kind ≤ 32
  texts : ∀ e ∈ d.nodes, e.2.kind = NodeKind.text → e.2.children = []
  documents : ∀ e ∈ d.nodes, e.2.kind = NodeKind.document → e.2.parent = none
  root : d.isDocument d.root = true
  frames : ∀ e ∈ d.nodes, ∀ doc ∈ e.2.content, e.2.kind = NodeKind.element ∧ e.2.children = [] ∧
    d.isDocument doc = true ∧ doc ≠ d.root
  frame_unique : ∀ e ∈ d.nodes, ∀ e' ∈ d.nodes, ∀ doc ∈ e.2.content, e'.2.content = some doc → e'.1 = e.1
  ends : ∀ e ∈ d.nodes, d.above d.nodes.length e.1 = none

instance (d : Dom) : Decidable d.WellFormed := decidable_of_iff _ (wellFormed_iff d).symm

theorem Framed.embeddingFrame?_eq_some (framed : d.Framed) :
    d.embeddingFrame? doc = some f ↔ d.contentDocument? f = some doc := by
  have frames_of : ∀ n, n ∈ (d.nodes.filterMap fun p => if p.2.content = some doc then some p.1 else none) ↔
      d.contentDocument? n = some doc := by
    intro n
    simp only [List.mem_filterMap, Prod.exists, Option.ite_none_right_eq_some, Option.some.injEq]
    rw [contentDocument?_eq_some]
    constructor
    · rintro ⟨m, node, member, link, rfl⟩
      exact ⟨node, framed.mem_nodes.mp member, link⟩
    · rintro ⟨node, found, link⟩
      exact ⟨n, node, framed.mem_nodes.mpr found, link, rfl⟩
  rw [embeddingFrame?, List.min?_eq_some_iff]
  simp only [frames_of]
  refine ⟨And.left, fun content => ⟨content, fun other embeds => ?_⟩⟩
  obtain ⟨node, found, link⟩ := contentDocument?_eq_some.mp content
  obtain ⟨node', found', link'⟩ := contentDocument?_eq_some.mp embeds
  exact Nat.le_of_eq (framed.frames _ (framed.mem_nodes.mpr found) _ (framed.mem_nodes.mpr found') doc link link').symm

theorem Framed.up_of_link (framed : d.Framed) (link : d.parent? n = some p ∨ d.contentDocument? p = some n) :
    d.up n = some p := by
  unfold up
  rcases link with parent | content
  · rw [parent]
  · have document := framed.content_document content
    rw [framed.parent_document document]
    simp [document, framed.embeddingFrame?_eq_some.mpr content]

theorem parent_of_up (plain : d.isDocument n = false) (link : d.up n = some p) : d.parent? n = some p := by
  rw [up, plain] at link
  cases parent : d.parent? n with
  | some q => simpa [parent] using link
  | none => simp [parent] at link

namespace WellFormed

theorem above_of_nth {steps : Nat} (found : Climb.nth d.parent? steps n = some p) : d.above steps n = some p := by
  induction steps generalizing n with
  | zero => exact found
  | succ steps ih =>
    obtain ⟨q, parent, rest⟩ := Option.bind_eq_some_iff.mp found
    simp only [above, up, parent, Option.bind_some, ih rest]

section

variable (wf : d.WellFormed)

include wf

theorem consistent : d.Consistent where
  keys_nodup := wf.keys_nodup
  parent_of_child := wf.parent_of_child
  child_of_parent := wf.child_of_parent
  nodup := wf.nodup
  documents := wf.documents
  contents e member doc content := (wf.frames e member doc content).2.2.1
  ends e member := Option.eq_none_iff_forall_ne_some.mpr fun p found =>
    absurd ((wf.ends e member).symm.trans (above_of_nth found)) (by simp)

theorem typed : d.Typed where
  toConsistent := wf.consistent
  kinds := wf.kinds
  texts := wf.texts

theorem framed : d.Framed where
  toTyped := wf.typed
  frames := wf.frame_unique

theorem mem_nodes {node : Node} : (n, node) ∈ d.nodes ↔ d.node? n = some node :=
  wf.consistent.mem_nodes

theorem parent_iff : d.parent? c = some p ↔ c ∈ d.children p := wf.consistent.parent_iff

theorem parent_document (document : d.isDocument n = true) : d.parent? n = none :=
  wf.consistent.parent_document document

theorem content_document (content : d.contentDocument? f = some doc) :
    d.isDocument doc = true ∧ doc ≠ d.root ∧ d.children f = [] := by
  obtain ⟨node, found, link⟩ := contentDocument?_eq_some.mp content
  obtain ⟨-, childless, document, other⟩ := wf.frames _ (wf.mem_nodes.mpr found) doc link
  exact ⟨document, other, by rw [children_of_node found, childless]⟩

theorem embeddingFrame?_eq_some : d.embeddingFrame? doc = some f ↔ d.contentDocument? f = some doc :=
  wf.framed.embeddingFrame?_eq_some

theorem up_eq_some : d.up n = some p ↔ d.parent? n = some p ∨ d.contentDocument? p = some n := by
  unfold up
  cases parent : d.parent? n with
  | some q =>
    -- A node with a parent is no document, so no frame holds it.
    have loose : d.contentDocument? p ≠ some n := fun content =>
      absurd ((wf.parent_document (wf.content_document content).1).symm.trans parent) (by simp)
    simp [loose]
  | none =>
    by_cases document : d.isDocument n
    · simp [document, wf.embeddingFrame?_eq_some]
    · have loose : d.contentDocument? p ≠ some n := fun content =>
        document (wf.content_document content).1
      simp [document, loose]

end

theorem up_of_parent (parent : d.parent? n = some p) : d.up n = some p := by
  simp [up, parent]

theorem up_document (wf : d.WellFormed) (document : d.isDocument n = true) : d.up n = d.embeddingFrame? n := by
  simp [up, wf.parent_document document, document]

theorem up_root (wf : d.WellFormed) : d.up d.root = none := by
  refine Option.eq_none_iff_forall_ne_some.mpr fun p link => ?_
  rcases wf.up_eq_some.mp link with parent | content
  · exact absurd ((wf.parent_document wf.root).symm.trans parent) (by simp)
  · exact (wf.content_document content).2.1 rfl

theorem nodes_of_up (wf : d.WellFormed) (link : d.up n = some p) :
    (∃ node, d.node? n = some node) ∧ ∃ node, d.node? p = some node := by
  rcases wf.up_eq_some.mp link with parent | content
  · obtain ⟨node, found, -⟩ := parent?_eq_some.mp parent
    obtain ⟨node', found', -⟩ := node_of_child (wf.parent_iff.mp parent)
    exact ⟨⟨node, found⟩, node', found'⟩
  · obtain ⟨node, found, -⟩ := isDocument_iff.mp (wf.content_document content).1
    obtain ⟨node', found', -⟩ := contentDocument?_eq_some.mp content
    exact ⟨⟨node, found⟩, node', found'⟩

end WellFormed

/-! ### Climbing -/

def climbed (d : Dom) : Nat → NodeId → Nat
  | 0, _ => 0
  | fuel + 1, n => (d.up n).elim 0 fun p => climbed d fuel p + 1

def depth (d : Dom) (n : NodeId) : Nat := d.climbed d.nodes.length n

theorem climbed_eq (fuel : Nat) (n : NodeId) : d.climbed fuel n = Climb.count d.up fuel n := by
  induction fuel generalizing n with
  | zero => rfl
  | succ fuel ih =>
    unfold climbed Climb.count
    cases d.up n with
    | none => rfl
    | some p => exact congrArg (· + 1) (ih p)

theorem above_eq (steps : Nat) (n : NodeId) : d.above steps n = Climb.nth d.up steps n := by
  induction steps generalizing n with
  | zero => rfl
  | succ steps ih =>
    unfold above Climb.nth
    cases d.up n with
    | none => rfl
    | some p => exact ih p

theorem depth_le (n : NodeId) : d.depth n ≤ d.nodes.length := by
  rw [depth, climbed_eq]
  exact Climb.count_le _ _

theorem depth_lt_reach (n : NodeId) : d.depth n < d.reach := Nat.lt_of_le_of_lt (depth_le n) d.nodes_lt_reach

theorem WellFormed.depth_up (wf : d.WellFormed) (link : d.up n = some p) : d.depth n = d.depth p + 1 := by
  obtain ⟨⟨node, found⟩, -⟩ := wf.nodes_of_up link
  have ended : Climb.nth d.up d.nodes.length n = none := by
    rw [← above_eq]
    exact wf.ends _ (wf.mem_nodes.mpr found)
  simp only [depth, climbed_eq, Climb.count_link ended link]

/-- A node that is another, or stands somewhere below it, over all frames. -/
def Under (d : Dom) : NodeId → NodeId → Prop := Relation.ReflTransGen fun n p => d.up n = some p

namespace Under

theorem step (link : d.up n = some p) (rest : d.Under p doc) : d.Under n doc :=
  Relation.ReflTransGen.head link rest

theorem cases_up (under : d.Under n c) : n = c ∨ ∃ p, d.up n = some p ∧ d.Under p c :=
  Relation.ReflTransGen.cases_head under

theorem depth_le (wf : d.WellFormed) (under : d.Under n c) : d.depth c ≤ d.depth n := by
  induction under with
  | refl => exact Nat.le_refl _
  | tail _ link ih => exact Nat.le_trans (by rw [wf.depth_up link]; omega) ih

theorem comparable (first : d.Under n c) (second : d.Under n p) : d.Under c p ∨ d.Under p c :=
  Relation.ReflTransGen.total_of_right_unique
    (fun _ _ _ one other => Option.some.inj (one.symm.trans other)) first second

theorem not_above (wf : d.WellFormed) (link : d.up n = some p) : ¬ d.Under p n := by
  intro under
  have deeper := under.depth_le wf
  rw [wf.depth_up link] at deeper
  omega

end Under

/-! ### The nodes above, and the document of a node -/

/-- The nodes met on the way up, nearest first, at most `fuel` of them. -/
def climb (d : Dom) : Nat → NodeId → List NodeId
  | 0, _ => []
  | fuel + 1, n => (d.up n).elim [] fun p => p :: climb d fuel p

def ancestors (d : Dom) (n : NodeId) : List NodeId := d.climb d.reach n

theorem WellFormed.climb_succ (wf : d.WellFormed) {fuel : Nat} (enough : d.depth n < fuel) :
    d.climb (fuel + 1) n = d.climb fuel n := by
  induction fuel generalizing n with
  | zero => omega
  | succ fuel ih =>
    unfold climb
    cases link : d.up n with
    | none => rfl
    | some p =>
      have lower : d.depth p < fuel := by have := wf.depth_up link; omega
      simp only [Option.elim_some, ih lower]

theorem WellFormed.ancestors_eq (wf : d.WellFormed) (n : NodeId) :
    d.ancestors n = (d.up n).elim [] fun p => p :: d.ancestors p := by
  calc d.ancestors n = d.climb (d.reach + 1) n := (wf.climb_succ (depth_lt_reach n)).symm
    _ = _ := rfl

theorem WellFormed.mem_ancestors (wf : d.WellFormed) (member : c ∈ d.ancestors n) :
    ∃ p, d.up n = some p ∧ d.Under p c := by
  induction steps : d.depth n generalizing n with
  | zero =>
    rw [wf.ancestors_eq] at member
    cases link : d.up n with
    | none => simp [link] at member
    | some p => have := wf.depth_up link; omega
  | succ steps ih =>
    rw [wf.ancestors_eq] at member
    cases link : d.up n with
    | none => simp [link] at member
    | some p =>
      simp only [link, Option.elim_some, List.mem_cons] at member
      rcases member with rfl | higher
      · exact ⟨c, rfl, .refl⟩
      · have depth := wf.depth_up link
        obtain ⟨q, next, under⟩ := ih higher (by omega)
        exact ⟨p, rfl, .step next under⟩

theorem under_top (fuel : Nat) (n : NodeId) : d.Under n (d.top fuel n) := by
  induction fuel generalizing n with
  | zero => exact .refl
  | succ fuel ih =>
    unfold top
    cases parent : d.parent? n with
    | none => exact .refl
    | some p => exact .step (WellFormed.up_of_parent parent) (ih p)

section

variable (wf : d.WellFormed)

include wf

theorem WellFormed.documentOf?_eq (n : NodeId) : d.documentOf? n =
    if d.isDocument (d.top d.reach n) then some (d.top d.reach n) else none :=
  wf.consistent.documentOf?_eq n

theorem WellFormed.documentOf?_parent (parent : d.parent? n = some p) : d.documentOf? p = d.documentOf? n :=
  wf.consistent.documentOf?_parent parent

theorem WellFormed.documentOf?_document (document : d.isDocument n = true) : d.documentOf? n = some n :=
  wf.consistent.documentOf?_document document

theorem WellFormed.isDocument_of_documentOf? (owner : d.documentOf? n = some doc) :
    d.isDocument doc = true ∧ d.Under n doc := by
  rw [wf.documentOf?_eq] at owner
  split at owner
  · cases owner
    exact ⟨‹_›, under_top _ n⟩
  · cases owner

theorem WellFormed.documentOf?_of_under_root (under : d.Under n d.root) : ∃ doc, d.documentOf? n = some doc := by
  have highest : d.parent? (d.top d.reach n) = none := wf.consistent.parent_top n
  have document : d.isDocument (d.top d.reach n) = true := by
    rcases (under_top d.reach n).comparable under with below | above
    · rcases below.cases_up with same | ⟨p, link, -⟩
      · rw [same]
        exact wf.root
      · -- What has something above it but no parent is a document in a frame.
        rcases wf.up_eq_some.mp link with parent | content
        · rw [highest] at parent
          cases parent
        · exact (wf.content_document content).1
    · rcases above.cases_up with same | ⟨p, link, -⟩
      · rw [← same]
        exact wf.root
      · rw [wf.up_root] at link
        cases link
  exact ⟨_, by rw [wf.documentOf?_eq, if_pos document]⟩

end

end Dom

end RemoteInspector
