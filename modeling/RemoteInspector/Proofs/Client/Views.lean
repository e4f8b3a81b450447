import Mathlib.Data.Finset.Card
import Mathlib.Data.List.Perm.Subperm
import Mathlib.Logic.Relation
import RemoteInspector.Proofs.Client.Links
/-!
What can be seen of a client's tree without its lists: the nodes, the stand-ins among them, and their parents.
-/
namespace RemoteInspector

namespace KnownTree

variable {m m' m'' : KnownTree} {name x y p q : String} {parent : Option String}

structure Glance where
  standin : Bool
  parent : Option String
  deriving DecidableEq

def glance? (m : KnownTree) (x : String) : Option Glance := (m.node? x).map fun k => ⟨k.standin, k.parent⟩

def parentOf (m : KnownTree) (x : String) : Option String := (m.glance? x).bind (·.parent)

def Sound (m : KnownTree) : Prop := ∃ kids, m.Linked kids

theorem knows_iff : m.knows x = true ↔ ∃ g, m.glance? x = some g := by
  unfold knows Table.contains glance? node?
  cases m.nodes.get? x <;> simp

theorem parentOf_eq : m.parentOf x = (m.node? x).bind (·.parent) := by
  unfold parentOf glance?
  cases m.node? x <;> rfl

theorem Linked.mem_kids_iff {kids : String → List String} (linked : m.Linked kids) :
    x ∈ kids p ↔ m.parentOf x = some p := by
  rw [parentOf_eq, Option.bind_eq_some_iff]
  exact ⟨linked.parent_of_mem, fun ⟨_, found, link⟩ => linked.listed found link⟩

/-! ### Changing a parent -/

theorem glance?_update (m : KnownTree) (name y : String) {f : KnownNode → KnownNode}
    (unseen : ∀ k, (f k).standin = k.standin ∧ (f k).parent = k.parent) :
    (m.update name f).glance? y = m.glance? y := by
  unfold glance?
  rw [node?_update, Option.map_map]
  congr 1
  funext k
  by_cases same : name = y
  · simp [same, unseen k]
  · simp [same]

theorem glance?_updateAt (m : KnownTree) (link : Option String) (y : String) {f : KnownNode → KnownNode}
    (unseen : ∀ k, (f k).standin = k.standin ∧ (f k).parent = k.parent) :
    (m.updateAt link f).glance? y = m.glance? y := by
  cases link with
  | none => rfl
  | some name => exact glance?_update m name y unseen

theorem glance?_unhook (m : KnownTree) (name y : String) (node : KnownNode) :
    (m.unhook name node).glance? y = m.glance? y := by
  rw [glance?, node?_unhook, Option.map_map]
  rfl

theorem glance?_reparent (m : KnownTree) (name y : String) (parent : Option String) :
    (m.reparent name parent).glance? y =
      (m.glance? y).map fun g => if name = y then { g with parent := parent } else g := by
  unfold reparent
  cases found : m.node? name with
  | none =>
    by_cases same : name = y
    · subst same
      simp [glance?, found]
    · simp [same]
  | some node =>
    by_cases stays : node.parent = parent
    · simp only [if_pos stays]
      by_cases same : name = y
      · subst same
        simp [glance?, found, stays]
      · simp [same]
    · simp only [if_neg stays]
      generalize (parent.bind (m.unhook name node).node?).bind (·.child) = first
      have moved : ((m.unhook name node).update name fun n =>
          { n with prev := none, next := first, parent := parent }).glance? y =
            (m.glance? y).map fun g => if name = y then { g with parent := parent } else g := by
        rw [← glance?_unhook m name y node]
        unfold glance?
        rw [node?_update, Option.map_map, Option.map_map]
        congr 1
        funext k
        by_cases same : name = y <;> simp [same]
      cases parent with
      | none => exact moved
      | some p =>
        refine (glance?_update _ _ _ ?_).trans ((glance?_updateAt _ _ _ ?_).trans moved)
        · exact fun _ => ⟨rfl, rfl⟩
        · exact fun _ => ⟨rfl, rfl⟩

theorem orphans_updateAt (m : KnownTree) (link : Option String) (f : KnownNode → KnownNode) :
    (m.updateAt link f).orphans = m.orphans ∧ (m.updateAt link f).root = m.root := by
  cases link <;> exact ⟨rfl, rfl⟩

theorem orphans_reparent (m : KnownTree) (name : String) (parent : Option String) :
    (m.reparent name parent).orphans = m.orphans ∧ (m.reparent name parent).root = m.root := by
  have unhooked : ∀ node, (m.unhook name node).orphans = m.orphans ∧
      (m.unhook name node).root = m.root := by
    intro node
    simp only [unhook, orphans_updateAt, and_self]
  unfold reparent
  cases m.node? name with
  | none => exact ⟨rfl, rfl⟩
  | some node =>
    dsimp only
    split
    · exact ⟨rfl, rfl⟩
    · cases parent with
      | none => exact unhooked node
      | some p => simpa only [update, orphans_updateAt] using unhooked node

theorem Sound.reparent (sound : m.Sound) (name : String)
    (above : ∀ q, parent = some q → m.knows q = true) : (m.reparent name parent).Sound := by
  obtain ⟨kids, linked⟩ := sound
  cases parent with
  | none => exact ⟨_, linked.reparent_none name⟩
  | some q =>
    have known := above q rfl
    cases found : m.node? name with
    | none => exact ⟨kids, by simpa [KnownTree.reparent, found] using linked⟩
    | some node =>
      by_cases stays : node.parent = some q
      · exact ⟨kids, by simpa [KnownTree.reparent, found, stays] using linked⟩
      · have loose := linked.reparent_none name
        have view := glance?_reparent m name
        obtain ⟨self, seen, link⟩ : ∃ k, (m.reparent name none).node? name = some k ∧ k.parent = none := by
          have glance := view name none
          simp only [glance?, found, Option.map_some, if_true] at glance
          obtain ⟨k, known, same⟩ := Option.map_eq_some_iff.mp glance
          exact ⟨k, known, congrArg Glance.parent same⟩
        obtain ⟨top, seen'⟩ : ∃ k, (m.reparent name none).node? q = some k := by
          obtain ⟨g, glance⟩ := knows_iff.mp known
          have glance' := view q none
          rw [glance, Option.map_some] at glance'
          obtain ⟨k, known, -⟩ := Option.map_eq_some_iff.mp glance'
          exact ⟨k, known⟩
        exact ⟨_, linked.reparent_some_eq found stays ▸ loose.hook seen link ⟨top, seen'⟩⟩

/-! ### Forms -/

theorem Linked.insert {kids : String → List String} (linked : m.Linked kids) {node : KnownNode}
    (links : (m.node? name).elim (node.parent = none ∧ node.child = none ∧ node.next = none ∧ node.prev = none)
      fun k => node.parent = k.parent ∧ node.child = k.child ∧ node.next = k.next ∧ node.prev = k.prev) :
    KnownTree.Linked { m with nodes := m.nodes.insert name node } kids := by
  have read : ∀ y, KnownTree.node? { m with nodes := m.nodes.insert name node } y =
      if name = y then some node else m.node? y := fun y => Table.get?_insert m.nodes name y node
  have unknown := linked.bare (p := name)
  -- Each node has the links it had; a new one has none.
  generalize KnownTree.mk _ _ _ = after at read ⊢
  obtain ⟨first, placed, listed, loose, known, nodup⟩ := linked
  refine ⟨?_, ?_, ?_, ?_, ?_, nodup⟩
  · intro p k' seen
    cases found : m.node? name <;> grind
  · intro p before x after split
    obtain ⟨k, found, place⟩ := placed split
    grind
  · intro x k' p seen parent
    cases found : m.node? name <;> grind
  · intro x k' seen parent
    cases found : m.node? name <;> grind
  · intro p x member
    grind

theorem glance?_ensure (m : KnownTree) (name y : String) : (m.ensure name).glance? y =
    if name = y then some ((m.glance? name).getD ⟨true, none⟩) else m.glance? y := by
  unfold ensure
  cases known : m.knows name with
  | true =>
    obtain ⟨g, seen⟩ := knows_iff.mp known
    by_cases same : name = y
    · subst same
      simp [seen]
    · simp [same]
  | false =>
    have unseen : m.glance? name = none := by
      cases seen : m.glance? name with
      | none => rfl
      | some g => rw [knows_iff.mpr ⟨g, seen⟩] at known; cases known
    simp only [Bool.false_eq_true, if_false, glance?, node?, Table.get?_insert]
    by_cases same : name = y
    · subst same
      simp [show (m.nodes.get? name).map _ = none from unseen]
    · simp [same]

theorem Sound.ensure (sound : m.Sound) (name : String) : (m.ensure name).Sound := by
  obtain ⟨kids, linked⟩ := sound
  unfold KnownTree.ensure
  cases known : m.knows name with
  | true => exact ⟨kids, by simpa using linked⟩
  | false =>
    have missing : m.node? name = none := by
      simpa [knows, Table.contains, KnownTree.node?] using known
    exact ⟨kids, by simpa using linked.insert (by simp [missing])⟩

/-- The tree in which a form has replaced what was known of its node, links apart. -/
def renew (m : KnownTree) (form : NodeForm) : KnownTree :=
  let node : KnownNode := (m.node? form.actor).getD { form := form }
  { m with nodes := m.nodes.insert form.actor { node with form := form, standin := false } }

theorem readForm_eq (m : KnownTree) (form : NodeForm) : m.readForm form =
    form.parent.elim (m.renew form) fun p => ((m.renew form).ensure p).reparent form.actor (some p) := by
  unfold readForm renew
  cases form.parent <;> rfl

theorem glance?_renew (m : KnownTree) (form : NodeForm) (y : String) : (m.renew form).glance? y =
    if form.actor = y then some ⟨false, m.parentOf form.actor⟩ else m.glance? y := by
  simp only [renew, glance?, node?, Table.get?_insert]
  by_cases same : form.actor = y
  · simp only [if_pos same, Option.map_some]
    rw [parentOf_eq, node?]
    cases m.nodes.get? form.actor <;> rfl
  · simp only [if_neg same]

theorem glance?_readForm (m : KnownTree) (form : NodeForm) (y : String) : (m.readForm form).glance? y =
      if form.actor = y then some ⟨false, form.parent.or (m.parentOf form.actor)⟩
      else if form.parent = some y then some ((m.glance? y).getD ⟨true, none⟩) else m.glance? y := by
  rw [readForm_eq]
  cases parent : form.parent with
  | none => simp [glance?_renew]
  | some p =>
    simp only [Option.elim_some, glance?_reparent, glance?_ensure, glance?_renew]
    by_cases self : form.actor = y
    · subst self
      by_cases own : p = form.actor
      · simp [own]
      · simp [own]
    · by_cases above : p = y
      · subst above
        simp [self]
      · simp [self, above]

theorem orphans_readForm (m : KnownTree) (form : NodeForm) :
    (m.readForm form).orphans = m.orphans ∧ (m.readForm form).root = m.root := by
  rw [readForm_eq]
  cases form.parent with
  | none => exact ⟨rfl, rfl⟩
  | some p =>
    have ensured : ((m.renew form).ensure p).orphans = m.orphans ∧
        ((m.renew form).ensure p).root = m.root := by
      unfold ensure
      split <;> exact ⟨rfl, rfl⟩
    simpa only [Option.elim_some, orphans_reparent] using ensured

theorem Sound.readForm (sound : m.Sound) (form : NodeForm) : (m.readForm form).Sound := by
  have renewed : (m.renew form).Sound := by
    obtain ⟨kids, linked⟩ := sound
    refine ⟨kids, linked.insert ?_⟩
    cases m.node? form.actor with
    | none => exact ⟨rfl, rfl, rfl, rfl⟩
    | some k => exact ⟨rfl, rfl, rfl, rfl⟩
  rw [readForm_eq]
  cases form.parent with
  | none => exact renewed
  | some p =>
    refine (renewed.ensure p).reparent form.actor fun q same => ?_
    cases same
    exact knows_iff.mpr ⟨_, (glance?_ensure _ p p).trans (if_pos rfl)⟩

/-! ### Nodes that go -/

/-- A node that is another, or is linked to it through parents. -/
def Under (m : KnownTree) : String → String → Prop := Relation.ReflTransGen fun x p => m.parentOf x = some p

/-- Some nodes are gone, and nothing else is seen to have changed. -/
structure Pruned (m m' : KnownTree) (gone : String → Prop) : Prop where
  sound : m'.Sound
  missing : ∀ {x}, gone x → m'.glance? x = none
  kept : ∀ {x}, ¬ gone x → m'.glance? x = m.glance? x
  orphans : ∀ {x}, x ∈ m'.orphans ↔ x ∈ m.orphans ∧ ¬ gone x
  order : m'.orphans.Sublist m.orphans
  root : ∀ {x}, m'.root = some x ↔ m.root = some x ∧ ¬ gone x

namespace Pruned

variable {gone gone' : String → Prop}

theorem congr (pruned : Pruned m m' gone) (same : ∀ x, gone x ↔ gone' x) : Pruned m m' gone' := by
  rw [funext fun x => propext (same x)] at pruned
  exact pruned

theorem refl (sound : m.Sound) : Pruned m m fun _ => False where
  sound := sound
  missing := False.elim
  kept _ := rfl
  orphans := by simp
  order := .refl _
  root := by simp

theorem trans (first : Pruned m m' gone) (next : Pruned m' m'' gone') : Pruned m m'' fun x => gone x ∨ gone' x where
  sound := next.sound
  missing := by
    intro x left
    by_cases now : gone' x
    · exact next.missing now
    · rw [next.kept now, first.missing (left.resolve_right now)]
  kept stays := by rw [next.kept fun now => stays (.inr now), first.kept fun before => stays (.inl before)]
  orphans := by
    intro x
    rw [next.orphans, first.orphans, not_or, and_assoc]
  order := next.order.trans first.order
  root := by
    intro x
    rw [next.root, first.root, not_or, and_assoc]

theorem parentOf_eq_some (pruned : Pruned m m' gone) : m'.parentOf x = some p ↔ m.parentOf x = some p ∧ ¬ gone x := by
  by_cases left : gone x
  · simp [parentOf, pruned.missing left, left]
  · simp [parentOf, pruned.kept left, left]

theorem under_iff (pruned : Pruned m m' gone) (closed : ∀ {x p}, m.parentOf x = some p → gone p → gone x) :
    m'.Under x y ↔ x = y ∨ m.Under x y ∧ ¬ gone x := by
  constructor
  · intro under
    induction under using Relation.ReflTransGen.head_induction_on with
    | refl => exact .inl rfl
    | head link _ ih =>
      obtain ⟨link', stays⟩ := pruned.parentOf_eq_some.mp link
      refine .inr ⟨.head link' ?_, stays⟩
      rcases ih with rfl | ⟨rest, -⟩
      · exact .refl
      · exact rest
  · rintro (rfl | ⟨under, stays⟩)
    · exact .refl
    · induction under using Relation.ReflTransGen.head_induction_on with
      | refl => exact .refl
      | head link _ ih =>
        exact .head (pruned.parentOf_eq_some.mpr ⟨link, stays⟩) (ih fun above => stays (closed link above))

end Pruned

end KnownTree

end RemoteInspector
