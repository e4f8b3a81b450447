import RemoteInspector.Proofs.Client.Destroy
import RemoteInspector.Proofs.Inspector.Forms
import RemoteInspector.Proofs.Inspector.Releases
import RemoteInspector.Proofs.Inspector.Requests
/-!
The client's tree beside what a walker knows: it has the nodes that the walker knows, each below the one that it
stands under.
-/
namespace RemoteInspector

namespace Walker

variable {d : Dom} {s t : Scene} {own name x : String} {w w' : WalkerActor} {n p : NodeId} {told : List NodeId}
variable {m m' : KnownTree} {read : NodeId → Prop}

/-! ### Known nodes under known nodes -/

def above? (d : Dom) (w : WalkerActor) (n : NodeId) : Option String := (d.up n).bind w.known.get?

theorem above?_eq_some : above? d w n = some x ↔ ∃ p, d.up n = some p ∧ w.known.get? p = some x :=
  Option.bind_eq_some_iff

def Closed (d : Dom) (w : WalkerActor) : Prop := ∀ ⦃n x⦄, w.known.get? n = some x → Ready d w n

namespace Closed

section

variable (closed : Closed d w)

include closed

theorem firm (known : w.known.get? n = some x) : Firm d w n where
  under := (closed known).under
  shown := (closed known).shown
  known {a} under := by
    induction under using Relation.ReflTransGen.head_induction_on generalizing x with
    | refl => exact ⟨x, known⟩
    | head link _ ih =>
      obtain ⟨y, above⟩ := (closed known).above _ link
      exact ih above

theorem unknown_eq (wf : d.WellFormed) (n : NodeId) :
    unknown w (d.ancestors n) = (d.ancestors n).filter fun a => (w.known.get? a).isNone := by
  induction steps : d.depth n generalizing n with
  | zero =>
    cases up : d.up n with
    | none =>
      rw [wf.ancestors_eq, up]
      rfl
    | some p =>
      rw [wf.depth_up up] at steps
      omega
  | succ k ih =>
    rw [wf.ancestors_eq]
    cases up : d.up n with
    | none => rfl
    | some p =>
      rw [wf.depth_up up] at steps
      rw [Option.elim_some, unknown, List.takeWhile_cons, List.filter_cons]
      cases known : w.known.get? p with
      | none => simpa [unknown] using ih p (Nat.succ.inj steps)
      | some x =>
        have above : ∀ a ∈ d.ancestors p, ¬ (w.known.get? a).isNone = true := by
          intro a member
          obtain ⟨q, link, under⟩ := wf.mem_ancestors member
          obtain ⟨y, there⟩ := (closed.firm known).known (.step link under)
          simp [there]
        simpa using above

theorem link (known : w.known.get? n = some x) (up : d.up n = some p) : Link d w n p :=
  ⟨up, (closed known).shown, x, known⟩

theorem tells (tells : Tells own d s t w w' told) : Closed d w' := by
  intro n x known
  rcases tells.learns.new known with old | ⟨member, -⟩
  · exact (closed old).learn tells.learns
  · exact tells.ready n member

theorem above?_forgets (forgets : Forgets own (Hangs d w · p) s t w w') (known : w.known.get? n = some x)
    (stays : ¬ Hangs d w n p) : above? d w' n = above? d w n := by
  unfold above?
  cases up : d.up n with
  | none => rfl
  | some q =>
    refine forgets.kept fun hangs => stays ?_
    exact .head (closed.link known up) hangs

theorem forgets (forgets : Forgets own (Hangs d w · p) s t w w') : Closed d w' := by
  intro n x known
  obtain ⟨stays, old⟩ := forgets.known_of known
  have ready := closed old
  refine ⟨ready.under, ready.shown, fun q up => ?_⟩
  obtain ⟨y, above⟩ := ready.above q up
  have same := closed.above?_forgets forgets old stays
  rw [above?_eq_some.mpr ⟨q, up, above⟩] at same
  obtain ⟨q', up', above'⟩ := above?_eq_some.mp same
  cases up.symm.trans up'
  exact ⟨y, above'⟩

end

end Closed

/-! ### Reading -/

theorem formOf_fields (s : Scene) (w : WalkerActor) (n : NodeId) :
    (formOf s w n).actor = (w.known.get? n).getD "" ∧ (formOf s w n).parent = above? (s.site.dom w.host) w n := by
  unfold formOf
  cases (s.site.dom w.host).info? n <;> exact ⟨rfl, rfl⟩

theorem ofJson?_formOf (wf : (s.site.dom w.host).WellFormed) (n : NodeId) :
    NodeForm.ofJson? (formOf s w n).toJson = some (formOf s w n) := by
  unfold formOf
  cases found : (s.site.dom w.host).node? n with
  | none =>
    rw [Dom.info?, found]
    exact NodeForm.ofJson?_toJson (Nat.zero_lt_succ _) (Nat.zero_lt_succ _) fun _ => rfl
  | some node =>
    have member := wf.mem_nodes.mpr found
    rw [Dom.info?, found]
    apply NodeForm.ofJson?_toJson
    · exact Nat.lt_of_le_of_lt (wf.kinds _ member).2 (by decide)
    · exact wf.counted _ member
    · exact fun other => if_neg other

/-- The client while it reads: it has the nodes that have been read in full and in their places, and no
node but those that the walker knows. -/
structure Reads (d : Dom) (w : WalkerActor) (read : NodeId → Prop) (m : KnownTree) : Prop where
  sound : m.Sound
  full : ∀ {n x}, read n → w.known.get? n = some x → m.glance? x = some ⟨false, above? d w n⟩
  only : ∀ {x g}, m.glance? x = some g →
    ∃ n, w.known.get? n = some x ∧ (g.parent = none ∨ g.parent = above? d w n)

abbrev Mirrors (d : Dom) (w : WalkerActor) (m : KnownTree) : Prop := Reads d w (fun _ => True) m

theorem Reads.readForm (reads : Reads d w read m) (holds : Holds s own w) {form : NodeForm}
    (known : w.known.get? n = some form.actor) (parent : form.parent = above? d w n) :
    Reads d w (fun k => read k ∨ k = n) (m.readForm form) := by
  have view := m.glance?_readForm form
  -- a parent that was noted before is the one that the form names
  have here : form.parent.or (m.parentOf form.actor) = above? d w n := by
    rw [parent]
    cases above : above? d w n with
    | some p => rfl
    | none =>
      rw [Option.none_or, KnownTree.parentOf]
      cases seen : m.glance? form.actor with
      | none => rfl
      | some g =>
        obtain ⟨k, same, noted⟩ := reads.only seen
        cases holds.known_inj known same
        rw [above, or_self] at noted
        exact noted
  constructor
  case sound => exact reads.sound.readForm form
  case full =>
    intro k x done there
    rw [view]
    by_cases self : form.actor = x
    · subst self
      cases holds.known_inj known there
      rw [if_pos rfl, here]
    · have old : read k := done.resolve_right fun same => self (Option.some.inj (by rw [← known, ← there, same]))
      rw [if_neg self, reads.full old there]
      split <;> rfl
  case only =>
    intro x g seen
    rw [view] at seen
    split at seen
    · rename_i self
      subst self
      cases seen
      exact ⟨n, known, .inr here⟩
    · split at seen
      · rename_i above
        obtain ⟨p, -, there⟩ := above?_eq_some.mp (parent.symm.trans above)
        cases old : m.glance? x with
        | some g' =>
          rw [old] at seen
          cases seen
          exact reads.only old
        | none =>
          rw [old] at seen
          cases seen
          exact ⟨p, there, .inl rfl⟩
      · exact reads.only seen

theorem Reads.readForms (reads : Reads d w read m) (holds : Holds s own w) (dom : t.site.dom w.host = d)
    (known : ∀ n ∈ told, ∃ x, w.known.get? n = some x) :
    Reads d w (fun k => read k ∨ k ∈ told) ((told.map (formOf t w)).foldl KnownTree.readForm m) := by
  induction told generalizing m read with
  | nil => simpa using reads
  | cons n rest ih =>
    obtain ⟨x, here⟩ := known n (by simp)
    obtain ⟨actor, parent⟩ := formOf_fields t w n
    have first := reads.readForm holds (by rw [actor, here]; rfl) (by rw [parent, dom])
    have next := ih first fun k member => known k (by simp [member])
    simpa only [List.mem_cons, or_assoc, List.map_cons, List.foldl_cons] using next

theorem Reads.congr {read' : NodeId → Prop} (reads : Reads d w read m)
    (all : ∀ n x, w.known.get? n = some x → read' n → read n) : Reads d w read' m :=
  ⟨reads.sound, fun done known => reads.full (all _ _ known done) known, reads.only⟩

theorem Mirrors.tells (mirrors : Mirrors d w m) (closed : Closed d w) (tells : Tells own d s t w w' told)
    (dom : s.site.dom w.host = d) : Mirrors d w' ((told.map (formOf s w')).foldl KnownTree.readForm m) := by
  have learns := tells.learns
  have above {n : NodeId} {x : String} (known : w.known.get? n = some x) : above? d w' n = above? d w n := by
    unfold above?
    cases up : d.up n with
    | none => rfl
    | some p =>
      obtain ⟨y, there⟩ := (closed known).above p up
      exact (learns.kept there).trans there.symm
  have start : Reads d w' (fun n => ∃ x, w.known.get? n = some x) m := by
    refine ⟨mirrors.sound, ?_, ?_⟩
    · rintro n x ⟨y, old⟩ known
      cases (learns.kept old).symm.trans known
      rw [above old]
      exact mirrors.full trivial old
    · intro x g seen
      obtain ⟨n, old, noted⟩ := mirrors.only seen
      exact ⟨n, learns.kept old, (above old).symm ▸ noted⟩
  have read := start.readForms (t := s) learns.holds (by rw [learns.host_eq, dom]) learns.learnt
  refine read.congr fun n x known _ => ?_
  rcases learns.new known with old | ⟨member, -⟩
  · exact .inl ⟨x, old⟩
  · exact .inr member

/-! ### Forgetting -/

theorem Mirrors.parentOf (mirrors : Mirrors d w m) (known : w.known.get? n = some x) : m.parentOf x = above? d w n := by
  rw [KnownTree.parentOf, mirrors.full trivial known, Option.bind_some]

theorem Mirrors.under_iff (mirrors : Mirrors d w m) (closed : Closed d w) (known : w.known.get? n = some x)
    (top : w.known.get? p = some name) (holds : Holds s own w) : m.Under x name ↔ Hangs d w n p := by
  constructor
  · intro under
    induction under using Relation.ReflTransGen.head_induction_on generalizing n with
    | refl =>
      cases holds.known_inj known top
      exact .refl
    | head link _ ih =>
      obtain ⟨q, up, above⟩ := above?_eq_some.mp ((mirrors.parentOf known).symm.trans link)
      exact .head (closed.link known up) (ih above)
  · intro hangs
    induction hangs using Relation.ReflTransGen.head_induction_on generalizing x with
    | refl =>
      cases known.symm.trans top
      exact .refl
    | head link _ ih =>
      obtain ⟨y, above⟩ := (closed known).above _ link.1
      refine .head ?_ (ih above)
      rw [mirrors.parentOf known]
      exact above?_eq_some.mpr ⟨_, link.1, above⟩

theorem Mirrors.destroy (mirrors : Mirrors d w m) (closed : Closed d w) (holds : Holds s own w)
    (top : w.known.get? p = some name) (forgets : Forgets own (Hangs d w · p) s t w w') :
    Mirrors d w' (m.destroy name) := by
  have pruned := mirrors.sound.destroy name
  constructor
  case sound => exact pruned.sound
  case full =>
    intro n x _ known
    obtain ⟨stays, old⟩ := forgets.known_of known
    rw [pruned.kept fun under => stays ((mirrors.under_iff closed old top holds).mp under),
      closed.above?_forgets forgets old stays]
    exact mirrors.full trivial old
  case only =>
    intro x g seen
    have here : ¬ m.Under x name := fun under => nomatch (pruned.missing under).symm.trans seen
    rw [pruned.kept here] at seen
    obtain ⟨n, old, noted⟩ := mirrors.only seen
    have stays : ¬ Hangs d w n p := fun hangs => here ((mirrors.under_iff closed old top holds).mpr hangs)
    exact ⟨n, (forgets.kept stays).trans old, (closed.above?_forgets forgets old stays).symm ▸ noted⟩

/-! ### What it comes to -/

theorem Mirrors.under_root (mirrors : Mirrors d w m) (closed : Closed d w) {root : String}
    (top : w.known.get? d.root = some root) (holds : Holds s own w) {g : KnownTree.Glance}
    (seen : m.glance? x = some g) : g.standin = false ∧ m.Under x root := by
  obtain ⟨n, known, -⟩ := mirrors.only seen
  have full := mirrors.full trivial known
  rw [seen] at full
  cases full
  refine ⟨rfl, (mirrors.under_iff closed known top holds).mpr ?_⟩
  -- each node on the way up is known, so that the way is one of known nodes
  have under := (closed known).under
  clear seen
  induction under using Relation.ReflTransGen.head_induction_on generalizing x with
  | refl => exact .refl
  | head link _ ih =>
    obtain ⟨y, above⟩ := (closed known).above _ link
    exact .head (closed.link known link) (ih above)

end Walker

end RemoteInspector
