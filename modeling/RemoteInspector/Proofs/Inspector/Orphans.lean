import RemoteInspector.Proofs.Dom.Edits
import RemoteInspector.Proofs.Inspector.Apart
import RemoteInspector.Proofs.Inspector.Cleanup
/-!
The orphans of a walker: nodes taken out of the tree and not yet put below a node that it knows.
-/
namespace RemoteInspector

open Relation (ReflTransGen)

/-! ### Packets make no orphans -/

namespace Scene

/-- The orphans of a walker, none if there is no such walker. -/
def orphans (s : Scene) (own : String) : List String := (s.find? own).elim [] Actor.orphans

def Sheds (s t : Scene) : Prop := ∀ own, t.orphans own ⊆ s.orphans own

namespace Sheds

variable {s t : Scene}

theorem of_registry (registry : t.conn.registry = s.conn.registry) : s.Sheds t := by
  intro own
  rw [orphans, orphans, find?, find?, registry]
  exact List.Subset.refl _

theorem update (s : Scene) (name : String) {f : Actor → Actor}
    (fewer : ∀ a, s.find? name = some a → (f a).orphans ⊆ a.orphans) : s.Sheds (s.update name f) := by
  intro own
  rw [orphans, orphans, find?_update]
  cases found : s.find? own with
  | none => exact List.nil_subset _
  | some a =>
    by_cases self : own = name
    · subst self
      simpa using fewer a found
    · simp [self]

theorem extend {added : List Registry.Entry} {scripts : Table ObjectId String} {next : Nat}
    (registry : t.conn.registry = s.conn.registry.extend added scripts next)
    (bare : ∀ e ∈ added, e.actor.orphans = []) : s.Sheds t := by
  intro own
  rw [orphans, orphans, find?, registry, Registry.find?_extend, ← find?]
  cases s.find? own with
  | some a => exact List.Subset.refl _
  | none =>
    cases new : added.find? (·.name = own) with
    | none => exact List.nil_subset _
    | some e =>
      have none : e.actor.orphans = [] := bare e (List.mem_of_find?_eq_some new)
      simp [none]

theorem abiding : Abiding Sheds where
  trans first next own := List.Subset.trans (next own) (first own)
  same _ registry := of_registry registry
  update s name _ kept := update s name fun a live => (kept a live).orphans
  remove s name := by
    intro own
    have found : (s.setRegistry (·.remove name)).find? own = if own = name then none else s.find? own :=
      Registry.find?_remove _ _ _
    rw [orphans, orphans, found]
    split
    · exact List.nil_subset _
    · exact List.Subset.refl _
  extend _ registry _ new := extend registry fun e member => (new e member).2.2.2
  object _ _ registry := extend registry fun e member => by
    cases List.mem_singleton.mp member
    rfl

theorem opening : Steady.Opening Sheds :=
  { abiding.minding.steady with
    registerTab := abiding.minding.registerTab
    root := fun f s _ => update s _ fun a _ => by cases a <;> exact List.Subset.refl _ }

end Sheds

end Scene

theorem Serve.orphans_of_begun {c : Connection} (begun : Serve.Begun c) (site : Site) (own : String) :
    Scene.orphans ⟨site, c⟩ own = [] := by
  obtain ⟨site', id, line, tabs, rfl⟩ := begun
  have sheds := Scene.Sheds.opening.start site' id line tabs own
  have bare : (Serve.rooted site' id line).orphans own = [] := by
    rw [Scene.orphans]
    change ((Registry.add {} ⟨Tabs.rootName, none, .root {}⟩).find? own).elim _ _ = _
    rw [Registry.find?_add]
    change (if Tabs.rootName = own then some _ else none).elim _ _ = _
    split <;> rfl
  exact List.subset_nil.mp (bare ▸ sheds)

/-! ### Marking -/

namespace Walker

variable {w : WalkerActor} {x p : NodeId} {changes : List Dom.Change}

def Orphan (w : WalkerActor) (x : NodeId) : Prop := ∃ name, w.known.get? x = some name ∧ name ∈ w.orphans

def mark (w : WalkerActor) (change : Dom.Change) : WalkerActor := (record {} 0 w change).1

theorem record_fst (d : Dom) (limit : Nat) (w : WalkerActor) (change : Dom.Change) :
    (record d limit w change).1 = mark w change := by
  unfold mark record
  cases w.known.get? change.target with
  | none => rfl
  | some target => cases change <;> rfl

theorem records_fst (d : Dom) (limit : Nat) (w : WalkerActor) (changes : List Dom.Change) :
    (records d limit w changes).1 = changes.foldl mark w := by
  induction changes generalizing w with
  | nil => rfl
  | cons change rest ih =>
    rw [List.foldl_cons, ← ih, ← record_fst d limit]
    rfl

theorem mem_orphans_foldl_orphan (w : WalkerActor) (names : List String) (name : String) :
    name ∈ (names.foldl WalkerActor.orphan w).orphans ↔ name ∈ w.orphans ∨ name ∈ names := by
  induction names generalizing w with
  | nil => simp
  | cons first rest ih =>
    have one : name ∈ (w.orphan first).orphans ↔ name ∈ w.orphans ∨ name = first := by
      unfold WalkerActor.orphan
      split
      · rename_i there
        exact (or_iff_left_of_imp fun same => same ▸ there).symm
      · simp
    rw [List.foldl_cons, ih, one, List.mem_cons, or_assoc]

theorem mem_orphans_foldl_adopt (w : WalkerActor) (names : List String) (name : String) :
    name ∈ (names.foldl WalkerActor.adopt w).orphans ↔ name ∈ w.orphans ∧ name ∉ names := by
  induction names generalizing w with
  | nil => simp
  | cons first rest ih =>
    rw [List.foldl_cons, ih]
    simp [WalkerActor.adopt, and_assoc]

theorem known_mark (w : WalkerActor) (change : Dom.Change) : (mark w change).known = w.known :=
  (record_marks {} 0 w change).same.2.2

theorem known_foldl_mark (w : WalkerActor) (changes : List Dom.Change) : (changes.foldl mark w).known = w.known := by
  induction changes generalizing w with
  | nil => rfl
  | cons change rest ih => rw [List.foldl_cons, ih, known_mark]

def Distinct (w : WalkerActor) : Prop :=
  ∀ {x y : NodeId} {name : String}, w.known.get? x = some name → w.known.get? y = some name → x = y

theorem Distinct.mem_names (distinct : Distinct w) {name : String} (known : w.known.get? x = some name)
    (nodes : List NodeId) : name ∈ nodes.filterMap w.known.get? ↔ x ∈ nodes := by
  rw [List.mem_filterMap]
  constructor
  · rintro ⟨y, member, same⟩
    exact distinct same known ▸ member
  · exact fun member => ⟨x, member, known⟩

theorem orphan_mark_childList (distinct : Distinct w) {target : NodeId} {added removed : List NodeId} :
    Orphan (mark w (.childList target added removed)) x ↔
      if (w.known.get? target).isSome then
        x ∉ added ∧ (Orphan w x ∨ x ∈ removed ∧ (w.known.get? x).isSome) else Orphan w x := by
  have known := known_mark w (.childList target added removed)
  cases look : w.known.get? target with
  | none =>
    have same : mark w (.childList target added removed) = w := by
      simp [mark, record, Dom.Change.target, look]
    rw [same]
    simp
  | some parent =>
    have marks : (mark w (.childList target added removed)).orphans =
        ((added.filterMap w.known.get?).foldl WalkerActor.adopt
          ((removed.filterMap w.known.get?).foldl WalkerActor.orphan w)).orphans := by
      simp [mark, record, Dom.Change.target, look]
    simp only [Orphan, known, marks, mem_orphans_foldl_adopt, mem_orphans_foldl_orphan, Option.isSome_some, if_true]
    constructor
    · rintro ⟨name, here, marked, apart⟩
      rw [distinct.mem_names here] at marked apart
      exact ⟨apart, marked.imp (fun old => ⟨name, here, old⟩) fun gone => ⟨gone, by simp [here]⟩⟩
    · rintro ⟨apart, ⟨name, here, old⟩ | ⟨gone, seen⟩⟩
      · exact ⟨name, here, .inl old, mt (distinct.mem_names here added).mp apart⟩
      · obtain ⟨name, here⟩ := Option.isSome_iff_exists.mp seen
        exact ⟨name, here, .inr ((distinct.mem_names here removed).mpr gone),
          mt (distinct.mem_names here added).mp apart⟩

theorem mark_quiet (w : WalkerActor) (change : Dom.Change)
    (silent : ∀ target added removed, change ≠ .childList target added removed) : mark w change = w := by
  unfold mark record
  cases w.known.get? change.target with
  | none => rfl
  | some target =>
    cases change with
    | childList node added removed => exact absurd rfl (silent node added removed)
    | _ => rfl

theorem orphan_of_told (distinct : Distinct w) {here : Option NodeId} (orphan : Orphan (changes.foldl mark w) x)
    (place : changes.foldl (Dom.Change.place x) here = some p) (known : (w.known.get? p).isSome) :
    Orphan w x ∧ here = some p := by
  induction changes generalizing w here with
  | nil => exact ⟨orphan, place⟩
  | cons change rest ih =>
    have same := known_mark w change
    obtain ⟨marked, put⟩ := ih (w := mark w change) (fun first second => distinct (same ▸ first) (same ▸ second))
      orphan place (same ▸ known)
    cases change with
    | childList target added removed =>
      rw [orphan_mark_childList distinct] at marked
      simp only [Dom.Change.place] at put
      split at put
      · -- Put in below a known node it was adopted.
        cases put
        rw [if_pos known] at marked
        exact absurd ‹x ∈ added› marked.1
      · split at put
        · cases put
        · refine ⟨?_, put⟩
          split at marked
          · exact marked.2.resolve_right fun gone => ‹x ∉ removed› gone.1
          · exact marked
    | attributes node name space => exact ⟨mark_quiet w (.attributes node name space) (by simp) ▸ marked, put⟩
    | characterData node => exact ⟨mark_quiet w (.characterData node) (by simp) ▸ marked, put⟩

theorem orphan_of_marked (distinct : Distinct w) (orphan : Orphan (changes.foldl mark w) x) :
    Orphan w x ∨ ∃ target added removed, .childList target added removed ∈ changes ∧ x ∈ removed := by
  induction changes generalizing w with
  | nil => exact .inl orphan
  | cons change rest ih =>
    have same := known_mark w change
    rcases ih (w := mark w change) (fun first second => distinct (same ▸ first) (same ▸ second)) orphan with
      marked | ⟨target, added, removed, member, gone⟩
    · cases change with
      | childList target added removed =>
        rw [orphan_mark_childList distinct] at marked
        split at marked
        · refine marked.2.imp_right fun gone => ⟨target, added, removed, List.mem_cons_self, gone.1⟩
        · exact .inl marked
      | attributes node name space => exact .inl (mark_quiet w (.attributes node name space) (by simp) ▸ marked)
      | characterData node => exact .inl (mark_quiet w (.characterData node) (by simp) ▸ marked)
    · exact .inr ⟨target, added, removed, List.mem_cons_of_mem _ member, gone⟩

variable {s : Scene} {own : String}

theorem find?_queue (live : s.find? own = some (.walker w)) (w' : WalkerActor) (records : List Mutation) :
    ∃ last, ((queue own w' records).after s).find? own = some (.walker last) ∧ last.known = w.known ∧
      last.orphans = w.orphans :=
  ⟨_, find?_queue_own live w' records, rfl, rfl⟩

theorem find?_onChanges (live : s.find? own = some (.walker w)) (changes : List Dom.Change) :
    ∃ last, ((onChanges own changes).after s).find? own = some (.walker last) ∧ last.known = w.known ∧
      last.orphans = (changes.foldl mark w).orphans := by
  have walker := Scene.walker?_eq_some.mpr live
  rw [onChanges, Act.after_get_bind, walker]
  have marked := records_fst (s.site.dom w.host) s.site.prefs.valueSummaryLength w changes
  cases made : records (s.site.dom w.host) s.site.prefs.valueSummaryLength w changes with
  | mk next found =>
    rw [made] at marked
    dsimp only at marked ⊢
    rw [made, Act.after_bind]
    have there : ((Act.updateWalker own fun _ => next).after s).find? own = some (.walker next) := by
      rw [after_updateWalker, live]
      simp
    obtain ⟨last, after, known, orphans⟩ := find?_queue there next found
    exact ⟨last, after, by rw [known, marked, known_foldl_mark], by rw [orphans, marked]⟩

theorem onChanges_of_absent (absent : s.walker? own = none) (changes : List Dom.Change) :
    (onChanges own changes).after s = s := by
  rw [onChanges, Act.after_get_bind, absent]
  rfl

end Walker

/-! ### Requests leave the trees as they are -/

namespace Scene

variable {s t : Scene} {own host name : String} {w : WalkerActor} {n x p : NodeId}

theorem Moves.outlines (moves : ReflTransGen Move s t) (host : String) :
    (t.site.dom host).outline = (s.site.dom host).outline :=
  site_rel (R := fun a b => (b.dom host).outline = (a.dom host).outline) (fun _ => rfl)
    (fun first next => next.trans first) (·.outlines host) (fun unmoved => by rw [unmoved.dom]) (fun _ _ _ => rfl) moves

/-! ### Known nodes and orphans of a scene -/

/-- The walker knows the node. -/
def Knows (s : Scene) (own : String) (n : NodeId) : Prop := (s.known? own n).isSome

/-- The walker knows the node by an actor on its list of orphans. -/
def Orphaned (s : Scene) (own : String) (x : NodeId) : Prop :=
  ∃ name, s.known? own x = some name ∧ name ∈ s.orphans own

/-- The node's parent is known and neither orphaned nor below an orphan. -/
def Attached (s : Scene) (own host : String) (n : NodeId) : Prop :=
  ∃ p, Walk.visibleParent? (s.site.dom host) n = some p ∧ s.Knows own p ∧
    ∀ o, s.Orphaned own o → ¬ (s.site.dom host).Under p o

theorem orphaned_of_walker (live : s.find? own = some (.walker w)) : s.Orphaned own x ↔ Walker.Orphan w x := by
  simp [Orphaned, Walker.Orphan, known?_of_walker live, orphans, live, Actor.orphans]

theorem walker_of_known (known : s.known? own n = some name) : ∃ w, s.find? own = some (.walker w) := by
  obtain ⟨w, live, _⟩ := Option.bind_eq_some_iff.mp known
  exact ⟨w, walker?_eq_some.mp live⟩

theorem walker_of_orphan (member : name ∈ s.orphans own) : ∃ w, s.find? own = some (.walker w) ∧ name ∈ w.orphans := by
  rw [orphans] at member
  cases live : s.find? own with
  | none => simp [live] at member
  | some a =>
    rw [live] at member
    cases a with
    | walker w => exact ⟨w, rfl, member⟩
    | _ => cases member

theorem Orphaned.knows (orphaned : s.Orphaned own x) : s.Knows own x := by
  obtain ⟨name, known, _⟩ := orphaned
  simp [Knows, known]

namespace Paired

variable (paired : s.Paired)

include paired

theorem stands_iff : (∃ w, s.find? own = some (.walker w)) → (s.known? own n = some name ↔ s.Stands own name n) := by
  rintro ⟨w, live⟩
  rw [known?_of_walker live]
  exact paired.known (tie?_of_walker live) n name

theorem distinct (live : s.find? own = some (.walker w)) : Walker.Distinct w := by
  intro x y name first second
  obtain ⟨actor, there, _, rfl⟩ := (paired.known (tie?_of_walker live) x name).mp first
  obtain ⟨actor', there', _, rfl⟩ := (paired.known (tie?_of_walker live) y name).mp second
  cases there.symm.trans there'
  rfl

theorem orphan_known (member : name ∈ s.orphans own) : ∃ x, s.known? own x = some name ∧ s.Stands own name x := by
  obtain ⟨w, live, listed⟩ := walker_of_orphan member
  obtain ⟨x, stands⟩ := (paired.orphans (tie?_of_walker live)).2 name listed
  exact ⟨x, (paired.stands_iff ⟨w, live⟩).mpr stands, stands⟩

theorem orphaned_of_sheds (paired' : t.Paired) (valid : s.Valid)
    (few : t.Few) (continues : s.Continues false t) (sheds : s.Sheds t)
    (orphaned : t.Orphaned own x) : s.Orphaned own x := by
  obtain ⟨name, known', marked'⟩ := orphaned
  have marked := sheds own marked'
  obtain ⟨y, known, actor, there, _, stands⟩ := paired.orphan_known marked
  obtain ⟨actor', there', _, stands'⟩ := (paired'.stands_iff (walker_of_known known')).mp known'
  -- The actor has its name for good, so it stands for the same node as before.
  have heir := continues.heir few valid (tie?_eq_node.mp there) (tie?_eq_node.mp there')
  cases Actor.seen_eq_node heir
  cases stands'.symm.trans stands
  exact ⟨name, known, marked⟩

end Paired

end Scene

/-! ### Runs of edits and requests -/

namespace Serve

variable {s t : Scene} {own host : String} {w : WalkerActor} {n x p : NodeId} {edits : List Dom.Edit}

def edited (own host : String) (edits : List Dom.Edit) (s : Scene) : Scene :=
  step (s.setSite (·.edits host edits)) (.event (.changes own ((s.site.dom host).editAll edits).2))

/-- One step of a run: a request, edits of which the walker is told, or anything on the site that leaves the
tree alone but for values. -/
inductive Stride (own host : String) (s : Scene) : Scene → Prop
  | request (packet : Json) : Stride own host s (step s (.packet packet))
  | edits (edits : List Dom.Edit) : s.conn.isOpen → Dom.ToldAll (s.Knows own) (s.site.dom host) edits →
      Stride own host s (edited own host edits s)
  | elsewhere (site : Site) : (site.dom host).outline = (s.site.dom host).outline → Stride own host s ⟨site, s.conn⟩

theorem Stride.later (stride : Stride own host s t) : s.conn.Later t.conn := by
  cases stride with
  | request packet => exact take_later s.conn ⟨s.site, .packet packet⟩
  | edits edits _ _ =>
    exact take_later s.conn ⟨s.site.edits host edits, .event (.changes own ((s.site.dom host).editAll edits).2)⟩
  | elsewhere site _ => exact .refl _

theorem Stride.paired (stride : Stride own host s t) (few : t.Few) (paired : s.Paired) : t.Paired := by
  cases stride with
  | request packet => exact paired_take ⟨s.site, .packet packet⟩ few paired
  | edits edits _ _ =>
    exact paired_take ⟨s.site.edits host edits, .event (.changes own ((s.site.dom host).editAll edits).2)⟩ few paired
  | elsewhere site _ => exact paired_elsewhere paired

/-! ### What the walker is told -/

theorem outline_step (given : s.Given) (input : Input) (host : String) :
    ((step s input).site.dom host).outline = (s.site.dom host).outline :=
  Scene.Moves.outlines (Scene.lasting.step s input given).1 host

theorem outline_edited (given : s.Given) (own host : String) (edits : List Dom.Edit) :
    ((edited own host edits s).site.dom host).outline = ((s.site.dom host).editAll edits).1.outline := by
  have after : (s.setSite (·.edits host edits)).Given := given
  rw [edited, outline_step after]
  exact congrArg Dom.outline (Site.dom_edits s.site host edits)

theorem edited_of_absent (absent : s.walker? own = none) :
    edited own host edits s = s.setSite (·.edits host edits) := by
  have absent' : (s.setSite (·.edits host edits)).walker? own = none := absent
  rw [edited, step, onEvent]
  split
  · exact Walker.onChanges_of_absent absent' _
  · rfl

theorem find?_edited (isOpen : s.conn.isOpen) (live : s.find? own = some (.walker w)) (host : String)
    (edits : List Dom.Edit) :
    ∃ last, (edited own host edits s).find? own = some (.walker last) ∧ last.known = w.known ∧
      last.orphans = (((s.site.dom host).editAll edits).2.foldl Walker.mark w).orphans := by
  have live' : (s.setSite (·.edits host edits)).find? own = some (.walker w) := live
  have isOpen' : (s.setSite (·.edits host edits)).conn.isOpen := isOpen
  rw [edited, step, onEvent, if_pos isOpen']
  exact Walker.find?_onChanges live' _

theorem known?_edited (isOpen : s.conn.isOpen) : (edited own host edits s).known? own n = s.known? own n := by
  cases look : s.walker? own with
  | none =>
    rw [edited_of_absent look]
    rfl
  | some w =>
    have live := Scene.walker?_eq_some.mp look
    obtain ⟨last, after, known, _⟩ := find?_edited isOpen live host edits
    rw [Scene.known?_of_walker after, known, Scene.known?_of_walker live]

theorem orphaned_edited (isOpen : s.conn.isOpen) (orphaned : (edited own host edits s).Orphaned own x) :
    ∃ w, s.find? own = some (.walker w) ∧
      Walker.Orphan (((s.site.dom host).editAll edits).2.foldl Walker.mark w) x := by
  cases look : s.walker? own with
  | none =>
    obtain ⟨name, known, _⟩ := orphaned
    rw [known?_edited isOpen, Scene.known?, look] at known
    cases known
  | some w =>
    have live := Scene.walker?_eq_some.mp look
    obtain ⟨last, after, known, marks⟩ := find?_edited isOpen live host edits
    obtain ⟨name, there, member⟩ := (Scene.orphaned_of_walker after).mp orphaned
    exact ⟨w, live, name, by rw [Walker.known_foldl_mark, ← known, there], marks ▸ member⟩

/-! ### Each moment of a run -/

/-- A walker and its tree in order. -/
structure Tended (own host : String) (s : Scene) : Prop where
  sound : s.conn.Sound
  paired : s.Paired
  framed : (s.site.dom host).Framed
  plain : ∀ {x}, s.Orphaned own x → (s.site.dom host).isDocument x = false

namespace Tended

section

variable (tended : Tended own host s)

include tended

theorem asked {packet : Json} (few : (step s (.packet packet)).Few)
    (orphaned : (step s (.packet packet)).Orphaned own x) : s.Orphaned own x := by
  have paired : (step s (.packet packet)).Paired := paired_take ⟨s.site, .packet packet⟩ few tended.paired
  exact tended.paired.orphaned_of_sheds paired tended.sound.valid few (Scene.Continues.lasting.step s _)
    (Scene.Sheds.abiding.minding.packet s packet) orphaned

theorem plain_edited (isOpen : s.conn.isOpen) (told : Dom.ToldAll (s.Knows own) (s.site.dom host) edits)
    (orphaned : (edited own host edits s).Orphaned own x) :
    ((s.site.dom host).editAll edits).1.isDocument x = false := by
  have seen : s.Knows own x := by
    rw [Scene.Knows, ← known?_edited isOpen]
    exact orphaned.knows
  obtain ⟨w, live, orphan⟩ := orphaned_edited isOpen orphaned
  obtain ⟨tells, -⟩ := Dom.editAll_tells tended.framed told
  rcases Walker.orphan_of_marked (tended.paired.distinct live) orphan with before | ⟨_, _, _, member, gone⟩
  · have plain := tended.plain ((Scene.orphaned_of_walker live).mpr before)
    exact Bool.eq_false_iff.mpr fun document => absurd (tells.documents seen document) (by simp [plain])
  · exact tells.removed seen member gone

theorem orphaned_of_edited (isOpen : s.conn.isOpen) (told : Dom.ToldAll (s.Knows own) (s.site.dom host) edits)
    (orphaned : (edited own host edits s).Orphaned own x)
    (parent : ((s.site.dom host).editAll edits).1.parent? x = some p) (known : s.Knows own p) :
    s.Orphaned own x ∧ (s.site.dom host).parent? x = some p := by
  have seen : s.Knows own x := by
    rw [Scene.Knows, ← known?_edited isOpen]
    exact orphaned.knows
  obtain ⟨w, live, orphan⟩ := orphaned_edited isOpen orphaned
  obtain ⟨tells, -⟩ := Dom.editAll_tells tended.framed told
  rw [tells.parents seen] at parent
  rw [Scene.Knows, Scene.known?_of_walker live] at known
  obtain ⟨before, here⟩ := Walker.orphan_of_told (tended.paired.distinct live) orphan parent known
  exact ⟨(Scene.orphaned_of_walker live).mpr before, here⟩

theorem stride (stride : Stride own host s t) (few : t.Few) : Tended own host t := by
  have sound := (stride.later.sound few tended.sound).1
  have paired := stride.paired few tended.paired
  cases stride with
  | request packet =>
    have outline := outline_step tended.paired.given (.packet packet) host
    refine ⟨sound, paired, tended.framed.of_outline outline, fun orphaned => ?_⟩
    rw [Dom.isDocument_of_outline outline]
    exact tended.plain (tended.asked few orphaned)
  | edits edits isOpen told =>
    have outline := outline_edited tended.paired.given own host edits
    obtain ⟨-, framed⟩ := Dom.editAll_tells tended.framed told
    refine ⟨sound, paired, framed.of_outline outline, fun orphaned => ?_⟩
    rw [Dom.isDocument_of_outline outline]
    exact tended.plain_edited isOpen told orphaned
  | elsewhere site outline =>
    refine ⟨sound, paired, tended.framed.of_outline outline, fun {x} orphaned => ?_⟩
    rw [Dom.isDocument_of_outline outline]
    exact tended.plain (x := x) orphaned

end

theorem of_begun (begun : Begun s.conn) (few : s.Few) (framed : (s.site.dom host).Framed) : Tended own host s where
  sound := sound_of_begun begun few
  paired := paired_of_begun begun few
  framed := framed
  plain orphaned := by
    obtain ⟨name, _, member⟩ := orphaned
    rw [orphans_of_begun begun s.site own] at member
    cases member

end Tended

theorem run_tended (begun : Begun s.conn) (framed : (s.site.dom host).Framed)
    (run : ReflTransGen (Stride own host) s t) (few : t.Few) : Tended own host t := by
  induction run with
  | refl => exact .of_begun begun few framed
  | tail _ stride ih => exact (ih (Nat.le_trans stride.later.later few)).stride stride few

/-! ### Revealing -/

/-- At some moment of the run the node was an orphan below a node that the walker did not know, until a request
made that one known; and there it still is. -/
def Revealed (own host : String) (s t : Scene) (x p : NodeId) : Prop :=
  ∃ (u : Scene) (packet : Json), ReflTransGen (Stride own host) s u ∧
    ReflTransGen (Stride own host) (step u (.packet packet)) t ∧
    u.Orphaned own x ∧ (u.site.dom host).parent? x = some p ∧ ¬ u.Knows own p ∧
    (step u (.packet packet)).Knows own p ∧ (t.site.dom host).parent? x = some p

theorem revealed_of_orphaned (begun : Begun s.conn) (framed : (s.site.dom host).Framed)
    (run : ReflTransGen (Stride own host) s t) (few : t.Few)
    (orphaned : t.Orphaned own x) (parent : (t.site.dom host).parent? x = some p) (known : t.Knows own p) :
    Revealed own host s t x p := by
  induction run with
  | refl =>
    obtain ⟨name, _, member⟩ := orphaned
    rw [orphans_of_begun begun s.site own] at member
    cases member
  | @tail u v run stride ih =>
    have few' := Nat.le_trans stride.later.later few
    have tended := run_tended begun framed run few'
    -- What was below a known node already had been revealed by then.
    have earlier (before : u.Orphaned own x) (here : (u.site.dom host).parent? x = some p)
        (seen : u.Knows own p) : Revealed own host s v x p := by
      obtain ⟨u', packet, reached, rest, orphan, below, unseen, shown, -⟩ := ih few' before here seen
      exact ⟨u', packet, reached, rest.tail stride, orphan, below, unseen, shown, parent⟩
    cases stride with
    | request packet =>
      have before := tended.asked few orphaned
      have here : (u.site.dom host).parent? x = some p := by
        rw [← Dom.parent?_of_outline (outline_step tended.paired.given (.packet packet) host), parent]
      by_cases seen : u.Knows own p
      · exact earlier before here seen
      · exact ⟨u, packet, run, .refl, before, here, seen, known, parent⟩
    | edits edits isOpen told =>
      have seen : u.Knows own p := by
        rw [Scene.Knows, known?_edited isOpen] at known
        exact known
      rw [Dom.parent?_of_outline (outline_edited tended.paired.given own host edits)] at parent
      obtain ⟨before, here⟩ := tended.orphaned_of_edited isOpen told orphaned parent seen
      exact earlier before here seen
    | elsewhere site outline =>
      have here : (u.site.dom host).parent? x = some p := by
        rw [← Dom.parent?_of_outline outline, parent]
      exact earlier orphaned here known

/-! ### Fetching records -/

/-- The orphans of a walker and all that is below them. -/
def Lost (own host : String) (s : Scene) (n : NodeId) : Prop :=
  ∃ o, s.Orphaned own o ∧ (s.site.dom host).Under n o

theorem Tended.fair (tended : Tended own host s) (live : s.find? own = some (.walker w)) :
    Walker.Fair own host (s.site.dom host) s where
  valid := tended.sound.valid
  dom := rfl
  stands {n name a} known found := by
    obtain ⟨actor, there, _, node⟩ := (tended.paired.stands_iff ⟨w, live⟩).mp known
    cases found.symm.trans (Scene.tie?_eq_node.mp there)
    exact ⟨actor, rfl, node⟩

theorem Tended.lets (tended : Tended own host s) {name : String} (member : name ∈ s.orphans own) :
    Walker.Lets (Lost own host s) s name := by
  intro a found
  obtain ⟨o, known, actor, there, _, rfl⟩ := tended.paired.orphan_known member
  cases found.symm.trans (Scene.tie?_eq_node.mp there)
  exact ⟨actor, rfl, actor.node, ⟨name, known, member⟩, .refl⟩

/-- A request for records, with cleanup or without, loses no node but orphans and what is below them. -/
theorem Tended.fetch (tended : Tended own w.host s) (live : s.find? own = some (.walker w))
    (up : s.conn.line = .up) {packet : Fields} (addressed : packet.get? "to" = some (.str own))
    (fetches : packet.get? "type" = some (.str "getMutations")) :
    Walker.Spares own (Lost own w.host s) s (step s (.packet (.obj packet))) := by
  have closed (n c : NodeId) (lost : Lost own w.host s n) (member : c ∈ Walk.below (s.site.dom w.host) .all n) :
      Lost own w.host s c := by
    obtain ⟨o, orphaned, under⟩ := lost
    exact ⟨o, orphaned, .step (Walk.up_of_below tended.framed member) under⟩
  have marked (name : String) (member : name ∈ w.orphans) : name ∈ s.orphans own := by
    rw [Scene.orphans, live]
    exact member
  rw [step]
  split
  · rw [Request.receive_eq packet up]
    rcases (Request.handle_cases s packet up).2 with ⟨self, r, left⟩ | ⟨self, actor, method, act, taken, left⟩
    · rw [left]
      exact .write s _
    · cases taken.addressed.symm.trans addressed
      cases taken.live.symm.trans live
      obtain ⟨type, typed, listed⟩ := taken.checked
      cases typed.symm.trans fetches
      have stays : method.release = false := by
        have found : ((Actor.walker w).schema.method? "getMutations").map (·.release) = some false := rfl
        rw [listed] at found
        exact Option.some.inj found
      have named : method.name = "getMutations" := by simpa using List.find?_some listed
      have decided := taken.decided
      rw [named] at decided
      cases decided
      rw [left, stays, if_neg Bool.false_ne_true]
      refine Walker.Spares.trans ?_ (.write _ _)
      rw [Act.after_bind]
      exact Walker.takeMutations_spares closed (tended.fair live) (fun name member => tended.lets (marked name member)) _
  · exact .refl s

/-- Whatever edits a walker is told of and whatever is asked for in between: an orphan whose parent is known,
and is neither an orphan nor below one, was below that parent as an orphan when a request made the parent
known. Fetching records, with cleanup or without, makes the walker forget orphans and what is below them only;
so a node is lost that is attached to the known tree only if it is an orphan revealed like this. -/
theorem attached_orphans_revealed (begun : Begun s.conn) (framed : (s.site.dom w.host).Framed)
    (run : ReflTransGen (Stride own w.host) s t) (few : t.conn.registry.next ≤ UInt32.size)
    (live : t.find? own = some (.walker w)) :
    (∀ x, t.Orphaned own x → t.Attached own w.host x → ∃ p, Revealed own w.host s t x p) ∧
    ∀ packet : Fields, t.conn.line = .up → packet.get? "to" = some (.str own) →
      packet.get? "type" = some (.str "getMutations") →
      ∀ n, t.Knows own n → ¬ (step t (.packet (.obj packet))).Knows own n →
        Lost own w.host t n ∧
        (t.Attached own w.host n → t.Orphaned own n ∧ ∃ p, Revealed own w.host s t n p) := by
  have tended := run_tended begun framed run few
  have revealed (x : NodeId) (orphaned : t.Orphaned own x) (attached : t.Attached own w.host x) :
      ∃ p, Revealed own w.host s t x p := by
    obtain ⟨p, visible, known, _⟩ := attached
    have parent := Dom.parent_of_up (tended.plain orphaned) (Walk.up_of_visibleParent tended.framed.toTyped visible)
    exact ⟨p, revealed_of_orphaned begun framed run few orphaned parent known⟩
  refine ⟨revealed, fun packet up addressed fetches n known forgotten => ?_⟩
  have spares := tended.fetch live up addressed fetches
  have lost : Lost own w.host t n := by
    by_contra stays
    rw [Scene.Knows, spares.kept stays] at forgotten
    exact forgotten known
  refine ⟨lost, fun attached => ?_⟩
  obtain ⟨o, orphaned, under⟩ := lost
  rcases under.cases_up with rfl | ⟨q, link, under⟩
  · exact ⟨orphaned, revealed n orphaned attached⟩
  · -- The parent of an attached node is not below an orphan.
    obtain ⟨p, visible, _, apart⟩ := attached
    cases link.symm.trans (Walk.up_of_visibleParent tended.framed.toTyped visible)
    exact absurd under (apart o orphaned)

theorem run_requests (packets : List Json) (s : Scene) :
    ReflTransGen (Stride own host) s (packets.foldl (fun s packet => step s (.packet packet)) s) := by
  induction packets generalizing s with
  | nil => exact .refl
  | cons packet rest ih => exact .head (.request packet) (ih _)

namespace Moved

def dom : Dom :=
  { nodes :=
      [(1, { kind := 9, children := [2] }), (2, { kind := 1, parent := some 1, children := [3, 4] }),
        (3, { kind := 1, parent := some 2 }), (4, { kind := 1, parent := some 2 })] }

def first : Scene := start ⟨onePage dom, { id := 0 }⟩ [(7, 0)]

def looks : List Json :=
  [.obj (request "conn0.inspector1" "getWalker" []), .obj (request "conn0.domwalker5" "documentElement" []),
    .obj (request "conn0.domwalker5" "children" [("node", .str "conn0.domnode7"), ("maxNodes", .nat 1)])]

def looked : Scene := looks.foldl (fun s packet => step s (.packet packet)) first

def moved : Scene := edited "conn0.domwalker5" "host" [.insert 3 4 none] looked

def last : Scene :=
  step moved (.packet (.obj (request "conn0.domwalker5" "children" [("node", .str "conn0.domnode7")])))

def walker : WalkerActor :=
  { host := "host", root := 1, known := [(1, "conn0.domnode6"), (2, "conn0.domnode7"), (3, "conn0.domnode8"),
      (4, "conn0.domnode9")]
    orphans := ["conn0.domnode8"], queue := [.childList "conn0.domnode7" [] ["conn0.domnode8"] 1] }

theorem live : last.find? "conn0.domwalker5" = some (.walker walker) :=
  Scene.walker?_eq_some.mp (by decide +kernel)

theorem run : ReflTransGen (Stride "conn0.domwalker5" "host") first last := by
  have there : (looked.site.dom "host").exists? 3 = true := by decide +kernel
  have framed : ((looked.site.dom "host").edit (.insert 3 4 none)).1.Framed := by decide +kernel
  have isOpen : looked.conn.isOpen := by decide +kernel
  have edits : Stride "conn0.domwalker5" "host" looked moved := .edits _ isOpen ⟨there, framed, trivial⟩
  have asks : Stride "conn0.domwalker5" "host" moved last := .request _
  exact .tail (.tail (run_requests looks first) edits) asks

theorem orphaned : last.Orphaned "conn0.domwalker5" 3 :=
  (Scene.orphaned_of_walker live).mpr ⟨"conn0.domnode8", by decide +kernel, by decide +kernel⟩

theorem attached : last.Attached "conn0.domwalker5" "host" 3 := by
  have wf : (last.site.dom "host").WellFormed := by decide +kernel
  have link : (last.site.dom "host").up 3 = some 4 := by decide +kernel
  have visible : Walk.visibleParent? (last.site.dom "host") 3 = some 4 := by decide +kernel
  have known : last.Knows "conn0.domwalker5" 4 := by
    rw [Scene.Knows, Scene.known?_of_walker live]
    decide
  unfold Scene.Attached
  refine ⟨4, visible, known, fun o orphan under => ?_⟩
  -- The moved element is the only orphan, and nothing is below what stands below it.
  obtain ⟨name, there, member⟩ := (Scene.orphaned_of_walker live).mp orphan
  cases List.mem_singleton.mp member
  obtain rfl : o = 3 := by simpa [walker] using Table.mem_of_get? there
  exact Dom.Under.not_above wf link under

theorem forgotten : ¬ (step last (.packet (.obj (request "conn0.domwalker5" "getMutations"
    [("cleanup", .bool true)])))).Knows "conn0.domwalker5" 3 := by
  unfold Scene.Knows
  decide +kernel

end Moved

/-- An element moves into another of which the client hears afterwards. -/
theorem attached_orphans_revealed_moved :
    ∃ (s t : Scene) (w : WalkerActor), Begun s.conn ∧ (s.site.dom w.host).Framed ∧
      ReflTransGen (Stride "conn0.domwalker5" w.host) s t ∧ t.find? "conn0.domwalker5" = some (.walker w) ∧
      t.Orphaned "conn0.domwalker5" 3 ∧ t.Attached "conn0.domwalker5" w.host 3 ∧
      ∃ p, Revealed "conn0.domwalker5" w.host s t 3 p := by
  have begun : Begun Moved.first.conn := begun_joined (onePage Moved.dom)
  have framed : (Moved.first.site.dom "host").Framed := by decide +kernel
  have few : Moved.last.Few := by decide +kernel
  have revealed := (attached_orphans_revealed begun framed Moved.run few Moved.live).1 3 Moved.orphaned Moved.attached
  exact ⟨Moved.first, Moved.last, Moved.walker, begun, framed, Moved.run, Moved.live, Moved.orphaned, Moved.attached,
    revealed⟩

/-- The moved element is attached to the known tree, and yet it is an orphan and leaves with them. -/
theorem attached_orphan_released :
    ∃ (s t : Scene) (w : WalkerActor) (packet : Fields), Begun s.conn ∧ (s.site.dom w.host).Framed ∧
      ReflTransGen (Stride "conn0.domwalker5" w.host) s t ∧ t.find? "conn0.domwalker5" = some (.walker w) ∧
      t.Orphaned "conn0.domwalker5" 3 ∧ t.Attached "conn0.domwalker5" w.host 3 ∧
      packet = request "conn0.domwalker5" "getMutations" [("cleanup", .bool true)] ∧
      ¬ (step t (.packet (.obj packet))).Knows "conn0.domwalker5" 3 := by
  have begun : Begun Moved.first.conn := begun_joined (onePage Moved.dom)
  have framed : (Moved.first.site.dom "host").Framed := by decide +kernel
  exact ⟨Moved.first, Moved.last, Moved.walker, _, begun, framed, Moved.run, Moved.live, Moved.orphaned,
    Moved.attached, rfl, Moved.forgotten⟩

end Serve

end RemoteInspector
