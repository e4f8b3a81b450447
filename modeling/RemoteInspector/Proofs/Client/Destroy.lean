import RemoteInspector.Proofs.Client.Views
/-!
Forgetting a node: it goes with all that is linked below it, and nothing else goes.
-/
namespace RemoteInspector

namespace KnownTree

variable {names : List String} {fuel : Nat}

variable {m m' : KnownTree} {name x y c p : String} {gone : String → Prop}

/-! ### Children -/

/-- The nodes from a link on, each by the one before, down to one that has no next. -/
inductive Chain (m : KnownTree) : Option String → List String → Prop
  | nil : Chain m none []
  | cons {x : String} {k : KnownNode} {rest : List String} :
      m.node? x = some k → Chain m k.next rest → Chain m (some x) (x :: rest)

theorem Chain.chain_eq {link : Option String} (chain : m.Chain link names) (enough : names.length < fuel) :
    m.chain fuel link = names := by
  induction chain generalizing fuel with
  | nil => cases fuel <;> rfl
  | @cons x k rest found _ ih =>
    obtain ⟨fuel, rfl⟩ : ∃ rest, fuel = rest + 1 := ⟨fuel - 1, by simp at enough; omega⟩
    rw [KnownTree.chain, found, Option.bind_some, ih (Nat.lt_of_succ_lt_succ enough)]

theorem Linked.chain {kids : String → List String} (linked : m.Linked kids) {before after : List String}
    (split : kids p = before ++ after) : m.Chain after.head? after := by
  induction after generalizing before with
  | nil => exact .nil
  | cons x after ih =>
    obtain ⟨node, found, -, -, next⟩ := linked.placed split
    refine .cons found ?_
    rw [next]
    exact ih (show kids p = (before ++ [x]) ++ after by simp [split])

theorem Linked.children_eq {kids : String → List String} (linked : m.Linked kids) (p : String) :
    m.children p = kids p := by
  have listed : kids p ⊆ m.nodes.keys := fun c member => by
    obtain ⟨node, found, -⟩ := linked.parent_of_mem member
    exact Table.mem_keys_iff.mpr ⟨node, found⟩
  have few : (kids p).length < m.nodes.length + 1 := by
    have bound := ((linked.nodup p).subperm listed).length_le
    rw [Table.keys, List.length_map] at bound
    omega
  unfold children
  cases found : m.node? p with
  | some node =>
    have whole : m.Chain (kids p).head? (kids p) := linked.chain (List.nil_append _).symm
    rw [Option.bind_some, linked.first found, whole.chain_eq few]
  | none =>
    rw [linked.bare found]
    rfl

theorem Sound.mem_children (sound : m.Sound) : x ∈ m.children p ↔ m.parentOf x = some p := by
  obtain ⟨kids, linked⟩ := sound
  rw [linked.children_eq, linked.mem_kids_iff]

/-! ### One node without links -/

def dropped (m : KnownTree) (name : String) : KnownTree where
  nodes := m.nodes.erase name
  orphans := strike m.orphans name
  root := if m.root = some name then none else m.root

theorem node?_dropped (m : KnownTree) (name y : String) :
    (m.dropped name).node? y = if name = y then none else m.node? y :=
  Table.get?_erase m.nodes name y

theorem Sound.dropped (sound : m.Sound) (top : m.parentOf name = none)
    (bare : ∀ x, m.parentOf x ≠ some name) : (m.dropped name).Sound := by
  obtain ⟨kids, linked⟩ := sound
  have read := node?_dropped m name
  have parent := fun x p => linked.mem_kids_iff (x := x) (p := p)
  generalize m.dropped name = m' at read ⊢
  obtain ⟨first, placed, listed, loose, known, nodup⟩ := linked
  refine ⟨kids, by grind, fun {p before x after} split => ?_, by grind, by grind, by grind, nodup⟩
  have member : x ∈ kids p := split ▸ List.mem_append_right _ List.mem_cons_self
  grind

/-! ### All that is linked below -/

def hooked (m : KnownTree) : Finset String := (m.nodes.keys.filter fun x => (m.parentOf x).isSome).toFinset

theorem mem_hooked : x ∈ m.hooked ↔ ∃ p, m.parentOf x = some p := by
  simp only [hooked, List.mem_toFinset, List.mem_filter, Option.isSome_iff_exists]
  refine ⟨And.right, fun link => ⟨?_, link⟩⟩
  obtain ⟨p, link⟩ := link
  rw [parentOf_eq] at link
  obtain ⟨node, found, -⟩ := Option.bind_eq_some_iff.mp link
  exact Table.mem_keys_iff.mpr ⟨node, found⟩

theorem card_hooked_le (m : KnownTree) : m.hooked.card ≤ m.nodes.length := by
  calc m.hooked.card ≤ (m.nodes.keys.filter fun x => (m.parentOf x).isSome).length := List.toFinset_card_le _
    _ ≤ m.nodes.keys.length := List.length_filter_le _ _
    _ = m.nodes.length := by rw [Table.keys, List.length_map]

theorem parentOf_reparent_none : (m.reparent name none).parentOf x = some p ↔ m.parentOf x = some p ∧ x ≠ name := by
  unfold parentOf
  rw [glance?_reparent]
  cases m.glance? x with
  | none => simp
  | some g =>
    by_cases same : name = x
    · simp [same]
    · simp [same, Ne.symm same]

theorem under_reparent_none : (m.reparent name none).Under x name ↔ m.Under x name := by
  constructor
  · intro under
    exact Relation.ReflTransGen.mono (fun _ _ link => (parentOf_reparent_none.mp link).1) _ _ under
  · intro under
    induction under using Relation.ReflTransGen.head_induction_on with
    | refl => exact .refl
    | @head x p link _ ih =>
      by_cases same : x = name
      · rw [same]
        exact .refl
      · exact .head (parentOf_reparent_none.mpr ⟨link, same⟩) ih

theorem under_iff_child (linked : ∀ c, c ∈ m.children name ↔ m.parentOf c = some name) :
    m.Under x name ↔ x = name ∨ ∃ c ∈ m.children name, m.Under x c := by
  constructor
  · intro under
    rcases Relation.ReflTransGen.cases_tail under with same | ⟨c, below, link⟩
    · exact .inl same.symm
    · exact .inr ⟨c, (linked c).mpr link, below⟩
  · rintro (rfl | ⟨c, member, below⟩)
    · exact .refl
    · exact below.tail ((linked c).mp member)

theorem foldl_pruned {step : KnownTree → String → KnownTree} (sound : m.Sound)
    (each : ∀ {m'} {gone : String → Prop} {c}, c ∈ names → Pruned m m' gone →
      Pruned m' (step m' c) (m'.Under · c)) : Pruned m (names.foldl step m) fun x => ∃ c ∈ names, m.Under x c := by
  have run : ∀ (rest : List String) {m' : KnownTree} {gone : String → Prop}, rest ⊆ names →
      Pruned m m' gone → (∀ {x p}, m.parentOf x = some p → gone p → gone x) →
        Pruned m (rest.foldl step m') fun x => gone x ∨ ∃ c ∈ rest, m.Under x c := by
    intro rest
    induction rest with
    | nil => exact fun _ pruned _ => pruned.congr (by simp)
    | cons c rest ih =>
      intro m' gone listed pruned closed
      have next := pruned.trans (each (listed List.mem_cons_self) pruned)
      have both : ∀ x, gone x ∨ m'.Under x c ↔ gone x ∨ m.Under x c := by
        intro x
        rw [pruned.under_iff closed]
        by_cases left : gone x
        · simp [left]
        · simp only [left, false_or, not_false_eq_true, and_true, or_iff_right_iff_imp]
          rintro rfl
          exact .refl
      have further := ih (List.subset_of_cons_subset listed) (next.congr both) (by
        rintro x p link (left | below)
        · exact .inl (closed link left)
        · exact .inr (.head link below))
      exact further.congr fun x => by simp [or_assoc]
  exact (run names (List.Subset.refl _) (.refl sound) fun _ => False.elim).congr (by simp)

theorem Pruned.dropped (pruned : Pruned (m.reparent name none) m' fun x =>
      ∃ c ∈ (m.reparent name none).children name, (m.reparent name none).Under x c)
    (children : ∀ c, c ∈ (m.reparent name none).children name ↔
      (m.reparent name none).parentOf c = some name) :
    Pruned m (m'.dropped name) fun x =>
      x = name ∨ ∃ c ∈ (m.reparent name none).children name, (m.reparent name none).Under x c := by
  have read : ∀ y, (m'.dropped name).glance? y = if name = y then none else m'.glance? y := by
    intro y
    rw [glance?, node?_dropped]
    split <;> rfl
  have top : m'.parentOf name = none := Option.eq_none_iff_forall_ne_some.mpr fun p link =>
    (parentOf_reparent_none.mp (pruned.parentOf_eq_some.mp link).1).2 rfl
  have bare : ∀ x, m'.parentOf x ≠ some name := fun x link => by
    obtain ⟨link', stays⟩ := pruned.parentOf_eq_some.mp link
    exact stays ⟨x, (children x).mpr link', .refl⟩
  refine ⟨pruned.sound.dropped top bare, ?_, ?_, ?_, ?_, ?_⟩
  · intro x left
    have missing := @pruned.missing x
    grind
  · intro x stays
    obtain ⟨other, stays⟩ := not_or.mp stays
    rw [read, if_neg (Ne.symm other), pruned.kept stays, glance?_reparent]
    simp [Ne.symm other]
  · intro x
    have other : x ∈ (m'.dropped name).orphans ↔ x ∈ m'.orphans ∧ x ≠ name := by simp [KnownTree.dropped, strike]
    rw [other, pruned.orphans, (orphans_reparent m name none).1, not_or, and_assoc, and_comm (b := x ≠ name)]
  · rw [← (orphans_reparent m name none).1]
    exact List.filter_sublist.trans pruned.order
  · intro x
    have other : (m'.dropped name).root = some x ↔ m'.root = some x ∧ x ≠ name := by grind [KnownTree.dropped]
    rw [other, pruned.root, (orphans_reparent m name none).2, not_or, and_assoc, and_comm (b := x ≠ name)]

theorem Pruned.card_hooked_lt (pruned : Pruned m m' gone) (link : m.parentOf c = some p) :
    (m'.reparent c none).hooked.card < m.hooked.card := by
  apply Finset.card_lt_card
  refine Finset.ssubset_iff_subset_ne.mpr ⟨fun x member => ?_, fun same => ?_⟩
  · obtain ⟨p, link⟩ := mem_hooked.mp member
    exact mem_hooked.mpr ⟨p, (pruned.parentOf_eq_some.mp (parentOf_reparent_none.mp link).1).1⟩
  · have member : c ∈ m.hooked := mem_hooked.mpr ⟨p, link⟩
    rw [← same] at member
    obtain ⟨p, link⟩ := mem_hooked.mp member
    exact (parentOf_reparent_none.mp link).2 rfl

theorem destroyBelow_pruned (sound : m.Sound) (enough : (m.reparent name none).hooked.card < fuel) :
    Pruned m (destroyBelow fuel m name) (m.Under · name) := by
  induction fuel generalizing m name with
  | zero => omega
  | succ fuel ih =>
    have cut : (m.reparent name none).Sound := sound.reparent name fun _ none => by cases none
    have children := fun c => cut.mem_children (x := c) (p := name)
    have below : Pruned (m.reparent name none)
        (((m.reparent name none).children name).foldl (destroyBelow fuel) (m.reparent name none))
        fun x => ∃ c ∈ (m.reparent name none).children name, (m.reparent name none).Under x c := by
      refine foldl_pruned cut fun {m' gone c} child pruned => ih pruned.sound ?_
      have fewer := pruned.card_hooked_lt ((children c).mp child)
      omega
    have bottom : ∀ x, m.Under x name ↔ x = name ∨
        ∃ c ∈ (m.reparent name none).children name, (m.reparent name none).Under x c := fun x =>
      under_reparent_none.symm.trans (under_iff_child children)
    rw [destroyBelow]
    exact (below.dropped children).congr fun x => (bottom x).symm

theorem card_hooked_cut_lt (m : KnownTree) (name : String) :
    (m.reparent name none).hooked.card < m.nodes.length + 1 := by
  have fewer : (m.reparent name none).hooked ⊆ m.hooked := fun x member => by
    obtain ⟨p, link⟩ := mem_hooked.mp member
    exact mem_hooked.mpr ⟨p, (parentOf_reparent_none.mp link).1⟩
  exact Nat.lt_succ_of_le (Nat.le_trans (Finset.card_le_card fewer) m.card_hooked_le)

/-- A node that is forgotten goes with all that is linked below it. -/
theorem Sound.destroy (sound : m.Sound) (name : String) : Pruned m (m.destroy name) (m.Under · name) :=
  destroyBelow_pruned sound (m.card_hooked_cut_lt name)

theorem Sound.foldl_destroy (sound : m.Sound) (names : List String) :
    Pruned m (names.foldl KnownTree.destroy m) fun x => ∃ c ∈ names, m.Under x c :=
  foldl_pruned sound fun _ pruned => pruned.sound.destroy _

/-! ### The recursion ends -/

/-- Forgetting nodes one after the other, each with the children found at it, as a recursion that
nothing but its own end stops. -/
inductive Forgets : KnownTree → List String → KnownTree → Prop
  | nil {m : KnownTree} : Forgets m [] m
  | cons {m below rest : KnownTree} {name : String} {children names : List String} :
      (m.reparent name none).Chain (((m.reparent name none).node? name).bind (·.child)) children →
      Forgets (m.reparent name none) children below → Forgets (below.dropped name) names rest →
      Forgets m (name :: names) rest

theorem Sound.chain_children (sound : m.Sound) (name : String) :
    m.Chain ((m.node? name).bind (·.child)) (m.children name) := by
  obtain ⟨kids, linked⟩ := sound
  rw [linked.children_eq]
  cases found : m.node? name with
  | some node =>
    rw [Option.bind_some, linked.first found]
    exact linked.chain (List.nil_append _).symm
  | none =>
    rw [linked.bare found]
    exact .nil

theorem destroyBelow_forgets {rest : KnownTree} (sound : m.Sound) (enough : (m.reparent name none).hooked.card < fuel)
    (onward : Forgets (destroyBelow fuel m name) names rest) : Forgets m (name :: names) rest := by
  induction fuel generalizing m name names rest with
  | zero => omega
  | succ fuel ih =>
    have cut : (m.reparent name none).Sound := sound.reparent name fun _ none => by cases none
    refine .cons (cut.chain_children name) ?_ onward
    -- one child after the other, in a tree from which those before are gone
    have run : ∀ (children : List String) {m' : KnownTree} {gone : String → Prop},
        children ⊆ (m.reparent name none).children name → Pruned (m.reparent name none) m' gone →
          Forgets m' children (children.foldl (destroyBelow fuel) m') := by
      intro children
      induction children with
      | nil => exact fun _ _ => .nil
      | cons c children more =>
        intro m' gone listed pruned
        have link := cut.mem_children.mp (listed List.mem_cons_self)
        have fewer := pruned.card_hooked_lt link
        have next : Pruned m' (destroyBelow fuel m' c) (m'.Under · c) :=
          destroyBelow_pruned pruned.sound (by omega)
        apply ih pruned.sound (by omega)
        exact more (List.subset_of_cons_subset listed) (pruned.trans next)
    exact run _ (List.Subset.refl _) (.refl cut)

theorem Sound.forgets (sound : m.Sound) (names : List String) : Forgets m names (names.foldl KnownTree.destroy m) := by
  induction names generalizing m with
  | nil => exact .nil
  | cons name names ih =>
    apply destroyBelow_forgets sound (m.card_hooked_cut_lt name)
    exact ih (sound.destroy name).sound

end KnownTree

end RemoteInspector
