import RemoteInspector.Proofs.Inspector.Releases
/-!
What a walker does about requests concerns itself and the actors it made.
-/
namespace RemoteInspector

namespace Scene

variable {s : Scene} {name : String}

theorem release_absent (valid : s.Valid) (absent : s.find? name = none) : s.release name = s := by
  rw [release, Registry.releaseOrder_childless (valid.childless absent)]
  exact releaseOne_absent absent

end Scene

namespace Walker

variable {s t u : Scene} {own host name x : String} {node : NodeId} {γ δ : Type}

/-! ### What one walker is about -/

/-- Under a name there is nothing but, maybe, the actor of a node that a walker made. -/
def Own (own : String) (s : Scene) (name : String) : Prop :=
  ∀ a, s.find? name = some a → ∃ n, a = .node n ∧ n.walker = own

/-- A walker that calls nodes by no other names than those it gave. -/
structure Tidy (own : String) (s : Scene) : Prop where
  valid : s.conn.registry.Valid s.conn.id
  live : ∃ w, s.find? own = some (.walker w)
  known : ∀ {node name}, s.known? own node = some name → Own own s name

/-- One walker and its nodes may have changed; all other walkers and nodes are as they were. -/
structure Minds (own : String) (s t : Scene) : Prop where
  back : ∀ {x a}, t.find? x = some a → x = own ∨ s.find? x = some a ∨ ∃ n, a = .node n ∧ n.walker = own
  stays : ∀ {x a}, s.find? x = some a → x ≠ own → a.rank ≤ 4 → (∀ n, a = .node n → n.walker ≠ own) →
    t.find? x = some a

namespace Minds

theorem refl (own : String) (s : Scene) : Minds own s s where
  back := fun found => .inr (.inl found)
  stays := fun found _ _ _ => found

theorem trans (first : Minds own s t) (next : Minds own t u) : Minds own s u where
  back := fun found => by
    rcases next.back found with self | before | made
    · exact .inl self
    · exact first.back before
    · exact .inr (.inr made)
  stays := fun found other high strange => next.stays (first.stays found other high strange) other high strange

theorem keeps (minds : Minds own s t) (tidy : Tidy own s) (mine : Own own s name) : Own own t name := by
  intro a found
  rcases minds.back found with rfl | before | made
  · obtain ⟨w, live⟩ := tidy.live
    obtain ⟨n, same, _⟩ := mine _ live
    cases same
  · exact mine a before
  · exact made

end Minds

/-- At a scene, an act of a walker is about itself and the nodes it made: given names of such nodes, it gives no
others. -/
def Mindful (own : String) (names : List String) (act : Act γ) (out : γ → List String) (s : Scene) : Prop :=
  s.conn.registry.next ≤ (act.after s).conn.registry.next ∧
    ((act.after s).conn.registry.next ≤ UInt32.size → Tidy own s → (∀ x ∈ names, Own own s x) →
      Tidy own (act.after s) ∧ Minds own s (act.after s) ∧ ∀ x ∈ out (act.result s), Own own (act.after s) x)

namespace Mindful

variable {names names' : List String} {o : γ → List String}

theorem mono {act : Act γ} (mindful : Mindful own names act o s) (more : names ⊆ names') : Mindful own names' act o s :=
  ⟨mindful.1, fun few tidy mine => mindful.2 few tidy fun x member => mine x (more member)⟩

theorem pure {value : γ} (named : o value ⊆ names) : Mindful own names (Pure.pure value) o s :=
  ⟨Nat.le_refl _, fun _ tidy mine => ⟨tidy, .refl own s, fun x member => mine x (named member)⟩⟩

theorem bind {act : Act γ} {next : γ → Act δ} {out' : δ → List String} (first : Mindful own names act o s)
    (second : Mindful own (o (act.result s) ++ names) (next (act.result s)) out' (act.after s)) :
    Mindful own names (act >>= next) out' s := by
  obtain ⟨later, early⟩ := first
  obtain ⟨later', late⟩ := second
  refine ⟨Nat.le_trans later later', fun few tidy mine => ?_⟩
  obtain ⟨tidy', minds, named⟩ := early (Nat.le_trans later' few) tidy mine
  obtain ⟨tidy'', minds', named'⟩ := late few tidy' fun x member => by
    rcases List.mem_append.mp member with new | old
    · exact named x new
    · exact minds.keeps tidy (mine x old)
  exact ⟨tidy'', minds.trans minds', named'⟩

theorem look {next : Scene → Act γ} (mindful : Mindful own names (next s) o s) :
    Mindful own names (get >>= next) o s := mindful

theorem supply {act : Act γ} (mindful : Mindful own names act o s)
    (mine : Tidy own s → ∀ x ∈ names, Own own s x) : Mindful own names' act o s :=
  ⟨mindful.1, fun few tidy _ => mindful.2 few tidy (mine tidy)⟩

theorem given {act : Act γ} (later : s.conn.registry.next ≤ (act.after s).conn.registry.next)
    (mindful : Tidy own s → (∀ x ∈ names, Own own s x) → Mindful own names act o s) : Mindful own names act o s :=
  ⟨later, fun few tidy mine => (mindful tidy mine).2 few tidy mine⟩

/-! ### Making actors of nodes -/

theorem ref (own host : String) (node : NodeId) (s : Scene) : Mindful own [] (ref own host node) ([·]) s := by
  have orderly := (orderly_steps own host).ref node s trivial
  refine ⟨orderly.later, fun few tidy _ => ?_⟩
  obtain ⟨w, live⟩ := tidy.live
  have above : Registry.Above s.conn.registry 4 own := ⟨3, by decide, Registry.has_of_find? live⟩
  have valid := (orderly.follows few tidy.valid above).valid
  cases known : s.known? own node with
  | some name =>
    obtain ⟨result, after⟩ := ref_of_known host known
    rw [result, after]
    exact ⟨tidy, .refl own s, by simpa using tidy.known known⟩
  | none =>
    obtain ⟨result, after⟩ := ref_of_unknown host known
    rw [after] at few valid
    rw [result, after]
    have fresh := Scene.find?_newName tidy.valid few (by decide : "domnode" ∈ Registry.kinds)
    generalize s.conn.registry.newName s.conn.id "domnode" = name at *
    have find := find?_enrol host node live fresh
    have minds : Minds own s (enrol s own host node name) := by
      constructor
      · intro x a found
        rw [find] at found
        split at found
        · exact .inl ‹_›
        · split at found
          · cases found
            exact .inr (.inr ⟨_, rfl, rfl⟩)
          · exact .inr (.inl found)
      · intro x a found other _ _
        have old : x ≠ name := by
          rintro rfl
          cases fresh.symm.trans found
        rw [find, if_neg other, if_neg old, found]
    have other : name ≠ own := by
      rintro rfl
      cases fresh.symm.trans live
    have made : Own own (enrol s own host node name) name := by
      intro a found
      rw [find, if_neg other, if_pos rfl] at found
      cases found
      exact ⟨_, rfl, rfl⟩
    refine ⟨⟨valid, ⟨_, by rw [find, if_pos rfl]⟩, fun {node' x} there => ?_⟩, minds, by simpa using made⟩
    have walker : (enrol s own host node name).walker? own = some { w with known := w.known.insert node name } := by
      rw [Scene.walker?_eq_some, find, if_pos rfl]
    rw [Scene.known?, walker, Option.bind_some, Table.get?_insert] at there
    split at there
    · cases there
      exact made
    · have before : s.known? own node' = some x := by
        rw [Scene.known?_of_walker live, there]
      exact minds.keeps tidy (tidy.known before)

theorem refs (own host : String) (nodes : List NodeId) (s : Scene) :
    Mindful own [] (nodes.mapM (Walker.ref own host)) id s := by
  induction nodes generalizing s with
  | nil => exact pure (List.Subset.refl _)
  | cons node rest ih =>
    rw [List.mapM_cons]
    refine (ref own host node s).bind (((ih _).mono (List.nil_subset _)).bind (pure ?_))
    exact fun x member => by simpa [or_comm] using member

theorem refUntilKnown (own host : String) (nodes : List NodeId) (s : Scene) :
    Mindful own [] (Walker.refUntilKnown own host nodes) id s := by
  induction nodes generalizing s with
  | nil => exact pure (List.Subset.refl _)
  | cons node rest ih =>
    rw [Walker.refUntilKnown]
    refine look ?_
    split
    · exact pure (List.Subset.refl _)
    · refine (ref own host node s).bind (((ih _).mono (List.nil_subset _)).bind (pure ?_))
      exact fun x member => by simpa [or_comm] using member

theorem ensurePath (own host : String) (node : NodeId) (s : Scene) :
    Mindful own [] (Walker.ensurePath own host node) id s :=
  look (refUntilKnown own host _ s)

/-! ### Telling of nodes -/

theorem form? (own name : String) (s : Scene) : Mindful own [name] (Walker.form? name) (fun _ => []) s := by
  refine given ((orderly_steps own "").form name s trivial).later fun _ mine => ?_
  refine look ?_
  split
  · exact pure (List.nil_subset _)
  · rename_i actor live
    obtain ⟨_, same, made⟩ := mine name (by simp) _ (Scene.node?_eq_some.mp live)
    cases same
    refine bind (o := fun _ => []) ?_ (pure (List.nil_subset _))
    split
    · rw [made]
      exact ((ref own _ _ s).mono (List.nil_subset _)).bind (pure (List.nil_subset _))
    · exact pure (List.nil_subset _)

theorem optionalForm (own : String) (name : Option String) (s : Scene) :
    Mindful own name.toList (Walker.form name) (fun _ => []) s := by
  cases name with
  | none => exact pure (List.nil_subset _)
  | some name => exact (form? own name s).bind (pure (List.nil_subset _))

theorem forms (own : String) (names : List String) (s : Scene) :
    Mindful own names (Walker.forms names) (fun _ => []) s := by
  have each : Mindful own names (names.mapM Walker.form?) (fun _ => []) s := by
    induction names generalizing s with
    | nil => exact pure (List.nil_subset _)
    | cons name rest ih =>
      rw [List.mapM_cons]
      refine ((form? own name s).mono (by simp)).bind ?_
      exact ((ih _).mono (List.subset_cons_self _ _)).bind (pure (List.nil_subset _))
  exact each.bind (pure (List.nil_subset _))

theorem nodeReply (own host : String) (node : Option NodeId) (s : Scene) :
    Mindful own [] (Walker.nodeReply own host node) (fun _ => []) s := by
  have name : Mindful own [] (node.mapM (Walker.ref own host)) Option.toList s := by
    cases node with
    | none => exact pure (List.nil_subset _)
    | some node =>
      rw [Option.mapM_some]
      exact ref own host node s
  exact name.bind (((optionalForm own _ _).mono (by simp)).bind (pure (List.nil_subset _)))

theorem refsReply (own host : String) (nodes : List NodeId) (reply : Json → Reply) (s : Scene) :
    Mindful own [] (do
      let names ← nodes.mapM (Walker.ref own host) return reply (← Walker.forms names)) (fun _ => []) s :=
  (refs own host nodes s).bind (((forms own _ _).mono (by simp)).bind (pure (List.nil_subset _)))

theorem queryReply (own host : String) (found : Option NodeId) (s : Scene) :
    Mindful own [] (Walker.queryReply own host found) (fun _ => []) s := by
  cases found with
  | none => exact pure (List.nil_subset _)
  | some node =>
    refine (ref own host node s).bind (((ensurePath own host node _).mono (List.nil_subset _)).bind ?_)
    refine ((optionalForm own _ _).mono (by simp)).bind ?_
    exact ((forms own _ _).mono (by simp)).bind (pure (List.nil_subset _))

/-! ### Letting go of nodes -/

theorem release (own name : String) (s : Scene) : Mindful own [name] (Act.release name) (fun _ => []) s := by
  refine ⟨Nat.le_of_eq (Scene.next_release s name).symm, fun _ tidy mine => ?_⟩
  rw [Act.after_release]
  cases found : s.find? name with
  | none =>
    rw [Scene.release_absent tidy.valid found]
    exact ⟨tidy, .refl own s, by simp⟩
  | some a =>
    obtain ⟨n, rfl, made⟩ := mine name (by simp) a found
    obtain ⟨w, live⟩ := tidy.live
    obtain ⟨owned, low, find⟩ := Scene.release_node tidy.valid found
    have high {x : String} {a : Actor} (there : s.find? x = some a) (rank : a.rank ≤ 4) : x ∉ owned :=
      fun member => absurd (low x member a there) (by omega)
    have minds : Minds own s (s.release name) := by
      constructor
      · intro x a there
        rw [find] at there
        split at there
        · cases there
        · obtain ⟨b, before, after⟩ := Option.map_eq_some_iff.mp there
          rw [made] at after
          split at after
          · exact .inl ‹_›
          · exact .inr (.inl (after ▸ before))
      · intro x a there other rank strange
        have stays : ¬ (x = name ∨ x ∈ owned) := by
          rintro (rfl | member)
          · exact strange n (Option.some.inj (there.symm.trans found)) made
          · exact high there rank member
        rw [find, if_neg stays, there, Option.map_some, made, if_neg other]
    have here : (s.release name).find? own = some (.walker (w.forget n.node name)) := by
      have stays : ¬ (own = name ∨ own ∈ owned) := by
        rintro (rfl | member)
        · cases live.symm.trans found
        · exact high live (by simp [Actor.rank]) member
      rw [find, if_neg stays, live, Option.map_some, made, if_pos rfl]
      rfl
    have fewer {node : NodeId} {x : String} (known : (s.release name).known? own node = some x) :
        s.known? own node = some x := by
      rw [Scene.known?_of_walker here] at known
      rw [Scene.known?_of_walker live]
      unfold WalkerActor.forget at known
      dsimp only at known
      split at known
      · rw [Table.get?_erase] at known
        split at known
        · cases known
        · exact known
      · exact known
    have valid := Scene.release_valid tidy.valid name
    rw [← (Scene.Silent.release s name).id] at valid
    exact ⟨⟨valid, ⟨_, here⟩, fun known => minds.keeps tidy (tidy.known (fewer known))⟩, minds, by simp⟩

theorem forM {α : Type} {each : α → Act Unit} {items : List α}
    (mindful : ∀ a ∈ items, ∀ t, Mindful own names (each a) (fun _ => []) t) (s : Scene) :
    Mindful own names (items.forM each) (fun _ => []) s := by
  induction items generalizing s with
  | nil => exact pure (List.nil_subset _)
  | cons a rest ih =>
    change Mindful own names (each a >>= fun _ => rest.forM each) _ s
    exact (mindful a (by simp) s).bind (ih (fun b member => mindful b (by simp [member])) _)

theorem visit {fuel : Nat}
    (below : ∀ name t, Mindful own [name] (Walker.releaseBelow own host fuel name) (fun _ => []) t)
    (child : NodeId) (s : Scene) : Mindful own names (Walker.visit own host fuel child) (fun _ => []) s := by
  refine look ?_
  split
  · rename_i name known
    exact (below name s).supply fun tidy x member => List.mem_singleton.mp member ▸ tidy.known known
  · exact pure (List.nil_subset _)

theorem releaseBelow (own host : String) (fuel : Nat) (name : String) (s : Scene) :
    Mindful own [name] (Walker.releaseBelow own host fuel name) (fun _ => []) s := by
  induction fuel generalizing name s with
  | zero => exact pure (List.nil_subset _)
  | succ fuel ih =>
    rw [Walker.releaseBelow]
    refine look ?_
    split
    · exact pure (List.nil_subset _)
    · exact (forM (fun child _ t => visit ih child t) s).bind (release own name _)

theorem releaseNode (own host name : String) (s : Scene) :
    Mindful own [name] (Walker.releaseNode own host name) (fun _ => []) s :=
  look (releaseBelow own host _ name s)

theorem updateWalker (own : String) (f : WalkerActor → WalkerActor) (known : ∀ w, (f w).known = w.known)
    (s : Scene) : Mindful own [] (Act.updateWalker own f) (fun _ => []) s := by
  have orderly := Act.Orderly.updateWalker (k := 0) (P := fun _ => True) own f s trivial
  refine ⟨orderly.later, fun few tidy _ => ?_⟩
  obtain ⟨w, live⟩ := tidy.live
  have minds : Minds own s ((Act.updateWalker own f).after s) := by
    constructor
    · intro x a found
      by_cases self : x = own
      · exact .inl self
      · rw [after_updateWalker_ne self] at found
        exact .inr (.inl found)
    · intro x a found other _ _
      rw [after_updateWalker_ne other, found]
  have here : ((Act.updateWalker own f).after s).find? own = some (.walker (f w)) := by
    simp [after_updateWalker, live]
  have same {node : NodeId} : ((Act.updateWalker own f).after s).known? own node = s.known? own node := by
    rw [Scene.known?_of_walker here, known, Scene.known?_of_walker live]
  have valid := (orderly.follows few tidy.valid trivial).valid
  exact ⟨⟨valid, ⟨_, here⟩, fun there => minds.keeps tidy (tidy.known (same ▸ there))⟩, minds, by simp⟩

theorem takeMutations (own : String) (w : WalkerActor) (cleanup : Bool) (s : Scene) :
    Mindful own w.orphans (Walker.takeMutations own w cleanup) (fun _ => []) s := by
  rw [Walker.takeMutations]
  refine ((updateWalker own (fun w => { w with queue := [] }) (fun _ => rfl) s).mono (List.nil_subset _)).bind ?_
  split
  · refine ((updateWalker own (fun w => { w with orphans := [] }) (fun _ => rfl) _).mono (List.nil_subset _)).bind ?_
    refine (forM (fun name member t => (releaseNode own w.host name t).mono ?_) _).bind (pure (List.nil_subset _))
    simpa using member
  · exact pure (List.nil_subset _)

end Mindful

theorem decide_mindful {w : WalkerActor} {method : String} {packet : Fields} {act : Act Reply}
    (accepted : decide s own w method packet = .ok act) (one : method ≠ "releaseNode")
    (all : method ≠ "querySelectorAll") : Mindful own w.orphans act (fun _ => []) s := by
  have none : [] ⊆ w.orphans := List.nil_subset _
  unfold decide at accepted
  dsimp only at accepted
  split at accepted
  case h_1 | h_2 | h_6 | h_7 =>
    obtain ⟨node, _, accepted⟩ := Decision.bind_ok accepted
    cases accepted
    exact (Mindful.nodeReply own w.host _ s).mono none
  case h_3 =>
    obtain ⟨node, _, accepted⟩ := Decision.bind_ok accepted
    cases accepted
    exact (Mindful.refsReply own w.host _ (fun forms => [("nodes", forms)]) s).mono none
  case h_4 | h_5 =>
    obtain ⟨node, _, accepted⟩ := Decision.bind_ok accepted
    obtain ⟨options, _, accepted⟩ := Decision.bind_ok accepted
    obtain ⟨page, _, accepted⟩ := Decision.bind_ok accepted
    cases accepted
    exact (Mindful.refsReply own w.host page.nodes (fun forms =>
      [("hasFirst", .bool page.hasFirst), ("hasLast", .bool page.hasLast), ("nodes", forms)]) s).mono none
  case h_8 =>
    obtain ⟨base, _, accepted⟩ := Decision.bind_ok accepted
    obtain ⟨text, _, accepted⟩ := Decision.bind_ok accepted
    obtain ⟨found, _, accepted⟩ := Decision.bind_ok accepted
    cases accepted
    exact (Mindful.queryReply own w.host found.head? s).mono none
  case h_9 => exact absurd rfl all
  case h_10 => exact absurd rfl one
  case h_11 =>
    cases accepted
    exact (Mindful.takeMutations own w _ s).bind (.pure (List.nil_subset _))
  case h_12 =>
    cases accepted
    exact .pure none
  case h_13 => cases accepted

end Walker

end RemoteInspector
