import RemoteInspector.Client.Walker
import RemoteInspector.Proofs.Client.Destroy
/-!
The upkeep of a client's tree: whatever forms and records say, every link names a node of the tree, and every walk
along the links comes to its end.
-/
namespace RemoteInspector

namespace KnownTree

variable {k : KnownNode} {kids : String → List String}

variable {m m' : KnownTree} {name x y p : String} {gone : String → Prop}

/-! ### Well-formed trees -/

/-- The links of a tree, and what it keeps beside them, are in order. -/
structure WellFormed (m : KnownTree) : Prop where
  /-- Every link names a node of the tree. -/
  links : ∀ {x k y}, m.node? x = some k → some y ∈ [k.parent, k.child, k.next, k.prev] → m.knows y = true
  /-- From the first child on come, each once, the nodes that name this one as their parent. -/
  children : ∀ {p node}, m.node? p = some node → ∃ names, m.Chain node.child names ∧ names.Nodup ∧
    ∀ x, x ∈ names ↔ ∃ k, m.node? x = some k ∧ k.parent = some p
  /-- The way back along a list is the way forth. -/
  back : ∀ {x k y k'}, m.node? x = some k → m.node? y = some k' → (k.next = some y ↔ k'.prev = some x)
  loose : ∀ {x k}, m.node? x = some k → k.parent = none → k.prev = none ∧ k.next = none
  orphans : m.orphans.Nodup ∧ ∀ x ∈ m.orphans, m.knows x = true
  root : ∀ {x}, m.root = some x → m.knows x = true

theorem knows_of_node? (found : m.node? x = some k) : m.knows x = true :=
  knows_iff.mpr ⟨_, by rw [glance?, found, Option.map_some]⟩

theorem Linked.split (linked : m.Linked kids) (found : m.node? x = some k)
    (beside : k.next = some y ∨ k.prev = some y) :
    ∃ p before after, k.parent = some p ∧ kids p = before ++ x :: after ∧
      k.prev = before.getLast? ∧ k.next = after.head? := by
  cases parent : k.parent with
  | none =>
    obtain ⟨prev, next⟩ := linked.loose found parent
    simp [prev, next] at beside
  | some p =>
    obtain ⟨before, after, around⟩ := List.append_of_mem (linked.listed found parent)
    obtain ⟨k', found', -, prev, next⟩ := linked.placed around
    cases found.symm.trans found'
    exact ⟨p, before, after, rfl, around, prev, next⟩

theorem Linked.prev_of_next (linked : m.Linked kids) (found : m.node? x = some k) (next : k.next = some y) :
    ∃ k', m.node? y = some k' ∧ k'.prev = some x := by
  obtain ⟨p, before, after, -, around, -, ahead⟩ := linked.split found (.inl next)
  obtain ⟨after, rfl⟩ := List.head?_eq_some_iff.mp (ahead.symm.trans next)
  have around' : kids p = (before ++ [x]) ++ y :: after := by simp [around]
  obtain ⟨k', found', -, prev, -⟩ := linked.placed around'
  exact ⟨k', found', by simp [prev]⟩

theorem Linked.next_of_prev (linked : m.Linked kids) (found : m.node? y = some k) (prev : k.prev = some x) :
    ∃ k', m.node? x = some k' ∧ k'.next = some y := by
  obtain ⟨p, before, after, -, around, behind, -⟩ := linked.split found (.inr prev)
  obtain ⟨before, rfl⟩ := List.getLast?_eq_some_iff.mp (behind.symm.trans prev)
  have around' : kids p = before ++ x :: (y :: after) := by simp [around]
  obtain ⟨k', found', -, -, next⟩ := linked.placed around'
  exact ⟨k', found', by simp [next]⟩

/-! ### What every change keeps -/

/-- The lists of children are in order, and what is kept beside them names nodes of the tree. -/
structure Tidy (m : KnownTree) : Prop where
  sound : m.Sound
  nodup : m.orphans.Nodup
  orphans : ∀ x ∈ m.orphans, m.knows x = true
  root : ∀ {x}, m.root = some x → m.knows x = true

theorem Tidy.wellFormed (tidy : m.Tidy) : m.WellFormed := by
  obtain ⟨kids, linked⟩ := tidy.sound
  constructor
  case links =>
    intro x k y found link
    have cases : some y = k.parent ∨ some y = k.child ∨ some y = k.next ∨ some y = k.prev := by
      simpa using link
    rcases cases with parent | child | next | prev
    · obtain ⟨k', found'⟩ := linked.known (linked.listed found parent.symm)
      exact knows_of_node? found'
    · have member : y ∈ kids x := List.mem_of_head? ((linked.first found).symm.trans child.symm)
      obtain ⟨k', found', -⟩ := linked.parent_of_mem member
      exact knows_of_node? found'
    · obtain ⟨k', found', -⟩ := linked.prev_of_next found next.symm
      exact knows_of_node? found'
    · obtain ⟨k', found', -⟩ := linked.next_of_prev found prev.symm
      exact knows_of_node? found'
  case children =>
    intro p node found
    refine ⟨kids p, ?_, linked.nodup p, fun x => ?_⟩
    · rw [linked.first found]
      exact linked.chain (List.nil_append _).symm
    · exact ⟨linked.parent_of_mem, fun ⟨k, found, parent⟩ => linked.listed found parent⟩
  case back =>
    intro x k y k' found found'
    constructor
    · intro next
      obtain ⟨k₁, found₁, prev⟩ := linked.prev_of_next found next
      cases found'.symm.trans found₁
      exact prev
    · intro prev
      obtain ⟨k₁, found₁, next⟩ := linked.next_of_prev found' prev
      cases found.symm.trans found₁
      exact next
  case loose => exact linked.loose
  case orphans => exact ⟨tidy.nodup, tidy.orphans⟩
  case root => exact tidy.root

theorem Tidy.grow (tidy : m.Tidy) (sound : m'.Sound) (kept : ∀ x, m.knows x = true → m'.knows x = true)
    (orphans : m'.orphans = m.orphans) (root : m'.root = m.root) : m'.Tidy where
  sound := sound
  nodup := orphans ▸ tidy.nodup
  orphans x member := kept x (tidy.orphans x (orphans ▸ member))
  root member := kept _ (tidy.root (root ▸ member))

theorem Sound.beside (sound : m.Sound) (orphans : List String) (root : Option String) :
    Sound ⟨m.nodes, orphans, root⟩ := by
  obtain ⟨kids, linked⟩ := sound
  exact ⟨kids, linked.first, linked.placed, linked.listed, linked.loose, linked.known, linked.nodup⟩

theorem Pruned.tidy (tidy : m.Tidy) (pruned : Pruned m m' gone) : m'.Tidy where
  sound := pruned.sound
  nodup := pruned.order.nodup tidy.nodup
  orphans x member := by
    obtain ⟨member, stays⟩ := pruned.orphans.mp member
    rw [knows_iff, pruned.kept stays, ← knows_iff]
    exact tidy.orphans x member
  root {x} here := by
    obtain ⟨here, stays⟩ := pruned.root.mp here
    rw [knows_iff, pruned.kept stays, ← knows_iff]
    exact tidy.root here

/-! ### Forms -/

theorem knows_readForm (m : KnownTree) (form : NodeForm) (known : m.knows x = true ∨ x = form.actor) :
    (m.readForm form).knows x = true := by
  rw [knows_iff, glance?_readForm]
  by_cases self : form.actor = x
  · exact ⟨_, if_pos self⟩
  · rw [if_neg self]
    by_cases above : form.parent = some x
    · exact ⟨_, if_pos above⟩
    · rw [if_neg above, ← knows_iff]
      exact known.resolve_right (Ne.symm self)

theorem Tidy.readForm (tidy : m.Tidy) (form : NodeForm) : (m.readForm form).Tidy := by
  apply tidy.grow (tidy.sound.readForm form)
  · exact fun x known => m.knows_readForm form (.inl known)
  · exact (m.orphans_readForm form).1
  · exact (m.orphans_readForm form).2

/-! ### Records -/

theorem knows_reparent (m : KnownTree) (name : String) (parent : Option String) (x : String) :
    (m.reparent name parent).knows x = m.knows x := by
  rw [Bool.eq_iff_iff, knows_iff, knows_iff, glance?_reparent]
  cases m.glance? x <;> simp

theorem Tidy.reparent (tidy : m.Tidy) (name : String) {parent : Option String}
    (above : ∀ q, parent = some q → m.knows q = true) : (m.reparent name parent).Tidy := by
  apply tidy.grow (tidy.sound.reparent name above)
  · intro x known
    rw [knows_reparent, known]
  · exact (m.orphans_reparent name parent).1
  · exact (m.orphans_reparent name parent).2

theorem knows_orphan (m : KnownTree) (name x : String) : (m.orphan name).knows x = m.knows x := by
  rw [← m.knows_reparent name none x, orphan]
  split <;> rfl

theorem Tidy.orphan (tidy : m.Tidy) (known : m.knows name = true) : (m.orphan name).Tidy := by
  have cut : (m.reparent name none).Tidy := tidy.reparent name fun q none => by cases none
  rw [KnownTree.orphan]
  split
  · exact cut
  · rename_i fresh
    constructor
    case sound => exact cut.sound.beside _ _
    case nodup => exact cut.nodup.append (List.nodup_singleton _) (by simpa using fresh)
    case orphans =>
      intro x member
      rcases List.mem_append.mp member with old | new
      · exact cut.orphans x old
      · rw [List.mem_singleton.mp new]
        exact (m.knows_reparent name none name).trans known
    case root => exact cut.root

theorem knows_adopt (m : KnownTree) (parent name x : String) : (m.adopt parent name).knows x = m.knows x :=
  m.knows_reparent name (some parent) x

theorem Tidy.adopt (tidy : m.Tidy) {parent : String} (above : m.knows parent = true) (name : String) :
    (m.adopt parent name).Tidy := by
  have moved : (m.reparent name (some parent)).Tidy := tidy.reparent name fun q same => by
    cases same
    exact above
  constructor
  case sound => exact moved.sound.beside _ _
  case nodup => exact moved.nodup.filter _
  case orphans => exact fun x member => moved.orphans x (List.mem_of_mem_filter member)
  case root => exact moved.root

theorem Tidy.foldl_orphan (tidy : m.Tidy) {names : List String} (known : ∀ x ∈ names, m.knows x = true) :
    (names.foldl KnownTree.orphan m).Tidy ∧ ∀ x, (names.foldl KnownTree.orphan m).knows x = m.knows x := by
  induction names generalizing m with
  | nil => exact ⟨tidy, fun _ => rfl⟩
  | cons name names ih =>
    have first := tidy.orphan (known name List.mem_cons_self)
    obtain ⟨rest, same⟩ := ih first fun x member => by
      rw [knows_orphan]
      exact known x (List.mem_cons_of_mem _ member)
    exact ⟨rest, fun x => (same x).trans (knows_orphan m name x)⟩

theorem Tidy.foldl_adopt (tidy : m.Tidy) {parent : String} (above : m.knows parent = true)
    (names : List String) : (names.foldl (KnownTree.adopt · parent) m).Tidy := by
  induction names generalizing m with
  | nil => exact tidy
  | cons name names ih => exact ih (tidy.adopt above name) ((knows_adopt m parent name parent).trans above)

def linksOf (k : KnownNode) : List (Option String) := [k.parent, k.child, k.next, k.prev]

theorem Linked.of_links (linked : m.Linked kids) (same : ∀ y, (m'.node? y).map linksOf = (m.node? y).map linksOf) :
    m'.Linked kids := by
  have back {y : String} {k' : KnownNode} (found : m'.node? y = some k') :
      ∃ k, m.node? y = some k ∧ linksOf k = linksOf k' := by
    have view := same y
    rw [found, Option.map_some] at view
    exact Option.map_eq_some_iff.mp view.symm
  have forth {y : String} {k : KnownNode} (found : m.node? y = some k) :
      ∃ k', m'.node? y = some k' ∧ linksOf k' = linksOf k := by
    have view := same y
    rw [found, Option.map_some] at view
    exact Option.map_eq_some_iff.mp view
  simp only [linksOf, List.cons.injEq] at back forth
  constructor
  case first =>
    intro p k' seen
    obtain ⟨k, found, -, child, -⟩ := back seen
    rw [← child, linked.first found]
  case placed =>
    intro p before x after split
    obtain ⟨k, found, parent, prev, next⟩ := linked.placed split
    obtain ⟨k', seen, parent', -, next', prev', -⟩ := forth found
    exact ⟨k', seen, parent'.trans parent, prev'.trans prev, next'.trans next⟩
  case listed =>
    intro x k' p seen parent
    obtain ⟨k, found, parent', -⟩ := back seen
    exact linked.listed found (parent'.trans parent)
  case loose =>
    intro x k' seen parent
    obtain ⟨k, found, parent', -, next', prev', -⟩ := back seen
    rw [← prev', ← next']
    exact linked.loose found (parent'.trans parent)
  case known =>
    intro p x member
    obtain ⟨k, found⟩ := linked.known member
    obtain ⟨k', seen, -⟩ := forth found
    exact ⟨k', seen⟩
  case nodup => exact linked.nodup

theorem Tidy.updateForm (tidy : m.Tidy) (name : String) (f : KnownNode → NodeForm) :
    (m.update name fun k => { k with form := f k }).Tidy := by
  have view : ∀ y, (m.update name fun k => { k with form := f k }).glance? y = m.glance? y := fun y =>
    glance?_update m name y fun _ => ⟨rfl, rfl⟩
  apply tidy.grow
  · obtain ⟨kids, linked⟩ := tidy.sound
    refine ⟨kids, linked.of_links fun y => ?_⟩
    rw [node?_update, Option.map_map]
    congr 1
    funext k
    by_cases same : name = y
    · simp [same, linksOf]
    · simp [same]
  · intro x known
    rw [knows_iff, view, ← knows_iff]
    exact known
  · rfl
  · rfl

theorem Tidy.applyRecord (tidy : m.Tidy) (record : Mutation) : (m.applyRecord record).1.Tidy := by
  unfold KnownTree.applyRecord
  split
  · exact tidy
  · rename_i known
    have known : m.knows record.target = true := by simpa using known
    cases record with
    | childList target added removed count =>
      have listed : ∀ x ∈ removed.filter m.knows, m.knows x = true := fun x member =>
        (List.mem_filter.mp member).2
      obtain ⟨cut, same⟩ := tidy.foldl_orphan listed
      have moved := cut.foldl_adopt ((same target).trans known) (added.filter m.knows)
      exact moved.updateForm target fun k => { k.form with numChildren := count }
    | frameLoad target url number => exact tidy
    | documentUnload target => exact (tidy.sound.destroy target).tidy tidy
    | attributes target key space value => exact tidy.updateForm target fun k => k.form.apply _
    | characterData target value incomplete => exact tidy.updateForm target fun k => k.form.apply _

theorem Tidy.applyRecords (tidy : m.Tidy) (records : List Mutation) : (m.applyRecords records).1.Tidy := by
  induction records generalizing m with
  | nil => exact tidy
  | cons record records ih => exact ih (tidy.applyRecord record)

theorem Tidy.cleanUp (tidy : m.Tidy) : m.cleanUp.Tidy := by
  have bare : Tidy { m with orphans := [] } :=
    ⟨tidy.sound.beside _ _, List.nodup_nil, fun _ member => (by cases member), tidy.root⟩
  exact (bare.sound.foldl_destroy m.orphans).tidy bare

/-! ### Every run -/

/-- What can happen to the tree of a walker. -/
inductive Change where
  | form (form : NodeForm)
  | records (records : List Mutation) (cleanup : Bool)
  | destroy (name : String)

def change (m : KnownTree) : Change → KnownTree
  | .form form => m.readForm form
  | .records records cleanup =>
    let m := (m.applyRecords records).1
    if cleanup then m.cleanUp else m
  | .destroy name => m.destroy name

/-- The tree of a new walker: with the root that its form describes, or empty. -/
def opened (root : Option NodeForm) : KnownTree :=
  root.elim {} fun form => { readForm {} form with root := some form.actor }

theorem tidy_opened (root : Option NodeForm) : (opened root).Tidy := by
  have empty : Tidy {} := by
    refine ⟨⟨fun _ => [], ?_⟩, List.nodup_nil, fun _ member => (by cases member), fun none => (by cases none)⟩
    constructor <;> intros <;> simp_all [node?, Table.get?]
  cases root with
  | none => exact empty
  | some form =>
    have read := empty.readForm form
    refine ⟨read.sound.beside _ _, read.nodup, read.orphans, fun here => ?_⟩
    cases here
    exact knows_readForm {} form (.inr rfl)

theorem Tidy.change (tidy : m.Tidy) (c : Change) : (m.change c).Tidy := by
  cases c with
  | form form => exact tidy.readForm form
  | records records cleanup =>
    have applied := tidy.applyRecords records
    cases cleanup with
    | false => exact applied
    | true => exact applied.cleanUp
  | destroy name => exact (tidy.sound.destroy name).tidy tidy

theorem Tidy.run (tidy : m.Tidy) (changes : List Change) : (changes.foldl KnownTree.change m).Tidy := by
  induction changes generalizing m with
  | nil => exact tidy
  | cons c changes ih => exact ih (tidy.change c)

/-- A tree is well formed after any changes, and no walk along its links is cut short: not that to the
children of a node, nor that by which a node, or all orphans, are forgotten. -/
theorem wellFormed_run (root : Option NodeForm) (changes : List Change) :
    let m := changes.foldl change (opened root)
    m.WellFormed ∧ (∀ name, m.Chain ((m.node? name).bind (·.child)) (m.children name)) ∧
      (∀ name, Forgets m [name] (m.destroy name)) ∧ Forgets { m with orphans := [] } m.orphans m.cleanUp := by
  intro m
  have tidy : m.Tidy := (tidy_opened root).run changes
  refine ⟨tidy.wellFormed, tidy.sound.chain_children, ?_, ?_⟩
  · intro name
    exact tidy.sound.forgets [name]
  · exact (tidy.sound.beside [] m.root).forgets m.orphans

end KnownTree

end RemoteInspector
