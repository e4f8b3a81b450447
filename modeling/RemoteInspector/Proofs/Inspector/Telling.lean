import RemoteInspector.Proofs.Inspector.Knowledge
import RemoteInspector.Proofs.Inspector.Pages
/-!
What a walker tells the client: whenever a node is described, its parent is known.
-/
namespace RemoteInspector

namespace Walker

variable {d : Dom} {s t u : Scene} {own host name : String} {w w' w'' : WalkerActor} {n p x : NodeId}
variable {nodes nodes' told : List NodeId}

/-! ### Forms -/

/-- The form in which a walker shows a node that it knows. -/
def formOf (s : Scene) (w : WalkerActor) (n : NodeId) : NodeForm :=
  .ofInfo s.site.prefs.valueSummaryLength ((w.known.get? n).getD "")
    (((s.site.dom w.host).up n).bind w.known.get?) ((s.site.dom w.host).info? n)

/-- A shown node of the root document, or of one embedded there, under a node that the walker knows. -/
structure Ready (d : Dom) (w : WalkerActor) (n : NodeId) : Prop where
  under : d.Under n d.root
  shown : Walk.shown d .all n = true
  above : ∀ p, d.up n = some p → ∃ x, w.known.get? p = some x

theorem Ready.learn (ready : Ready d w n) (learns : Learns own nodes s t w w') : Ready d w' n :=
  ⟨ready.under, ready.shown, fun p link => (ready.above p link).imp fun _ => learns.kept⟩

theorem formOf_unmoved (unmoved : s.site.Unmoved t.site) : formOf t w = formOf s w := by
  funext n
  rw [formOf, formOf, unmoved.dom, unmoved.prefs]

theorem Learns.dom_eq (learns : Learns own nodes s t w w') (dom : s.site.dom w.host = d) : t.site.dom w'.host = d := by
  rw [learns.host_eq, learns.unmoved.dom, dom]

theorem form?_known (dom : s.site.dom w.host = d) (wf : d.WellFormed) (holds : Holds s own w)
    (ready : Ready d w n) (known : w.known.get? n = some name) :
    (form? name).after s = s ∧ (form? name).result s = some (formOf s w n) := by
  obtain ⟨o, actor⟩ := holds.node? known
  obtain ⟨doc, owner⟩ := wf.documentOf?_of_under_root ready.under
  have parent := Walk.visibleParent?_eq wf owner
  have live := Scene.walker?_eq_some.mpr holds.walker
  unfold form? formOf
  simp only [Act.after_bind, Act.result_bind, Act.after_get, Act.result_get, actor, live, dom, parent]
  cases link : d.up n with
  | none => exact ⟨rfl, by simp [known]⟩
  | some p =>
    obtain ⟨x, above⟩ := ready.above p link
    obtain ⟨result, after⟩ := ref_of_known w.host ((holds.known? p).trans above)
    simp only [Act.after_bind, Act.result_bind, Act.after_pure, Act.result_pure, result, after]
    exact ⟨trivial, by simp [known, above]⟩

theorem forms_known (dom : s.site.dom w.host = d) (wf : d.WellFormed) (holds : Holds s own w)
    {names : List String} (known : Names w nodes names) (ready : ∀ n ∈ nodes, Ready d w n) :
    (forms names).after s = s ∧ (forms names).result s = .arr (nodes.map fun n => (formOf s w n).toJson) := by
  have each : (names.mapM form?).after s = s ∧
      (names.mapM form?).result s = nodes.map fun n => some (formOf s w n) := by
    induction known with
    | nil => exact ⟨rfl, rfl⟩
    | @cons n name nodes names first rest ih =>
      obtain ⟨after, result⟩ := form?_known dom wf holds (ready n (by simp)) first
      obtain ⟨after', result'⟩ := ih fun m member => ready m (by simp [member])
      simp only [List.mapM_cons, Act.after_bind, Act.result_bind, Act.after_pure, Act.result_pure, after,
        result, after', result', List.map_cons, and_self]
  unfold forms
  simp only [Act.after_bind, Act.result_bind, Act.after_pure, Act.result_pure, each.1, each.2, true_and]
  simp [List.filterMap_map]

/-! ### Telling -/

/-- The walker has got to know some of the nodes it tells of, and those only. -/
structure Tells (own : String) (d : Dom) (s t : Scene) (w w' : WalkerActor) (told : List NodeId) : Prop where
  learns : Learns own told s t w w'
  ready : ∀ n ∈ told, Ready d w' n

def sheet (s : Scene) (w : WalkerActor) (told : List NodeId) : Json :=
  .arr (told.map fun n => (formOf s w n).toJson)

theorem tell (dom : s.site.dom w.host = d) (wf : d.WellFormed) (holds : Holds s own w) (here : w.host = host)
    (ready : ∀ n ∈ nodes, Ready d w n)
    (few : ((nodes.mapM (ref own host)).after s).Few) :
    ∃ w', Tells own d s ((nodes.mapM (ref own host) >>= forms).after s) w w' nodes ∧
      (nodes.mapM (ref own host) >>= forms).result s = sheet s w' nodes := by
  obtain ⟨w', learns, names⟩ := mapM_ref_learns holds here nodes few
  have ready' : ∀ n ∈ nodes, Ready d w' n := fun n member => (ready n member).learn learns
  obtain ⟨after, result⟩ := forms_known (learns.dom_eq dom) wf learns.holds names ready'
  refine ⟨w', ?_, ?_⟩
  · rw [Act.after_bind, after]
    exact ⟨learns, ready'⟩
  · rw [Act.result_bind, result, formOf_unmoved learns.unmoved, sheet]

/-! ### The way up -/

/-- The unknown nodes above a node stand under known ones as soon as they are all known. -/
theorem ready_path (wf : d.WellFormed) (under : d.Under n d.root) (shown : Walk.shown d .all n = true)
    (learns : Learns own nodes s t w w') (learnt : unknown w (d.ancestors n) ⊆ nodes) :
    ∀ m ∈ n :: unknown w (d.ancestors n), Ready d w' m := by
  induction steps : d.depth n generalizing n with
  | zero =>
    cases link : d.up n with
    | some p =>
      rw [wf.depth_up link] at steps
      omega
    | none =>
      rw [wf.ancestors_eq, link]
      intro m member
      cases List.mem_singleton.mp member
      exact ⟨under, shown, fun p up => nomatch link.symm.trans up⟩
  | succ k ih =>
    rcases under.cases_up with rfl | ⟨p, link, higher⟩
    · rw [wf.ancestors_eq, wf.up_root]
      intro m member
      cases List.mem_singleton.mp member
      exact ⟨under, shown, fun p up => nomatch wf.up_root.symm.trans up⟩
    · rw [wf.ancestors_eq, link, Option.elim_some] at learnt ⊢
      have deep : d.depth p = k := by
        rw [wf.depth_up link] at steps
        omega
      have ready (above : ∃ x, w'.known.get? p = some x) : Ready d w' n :=
        ⟨under, shown, fun q up => Option.some.inj (link.symm.trans up) ▸ above⟩
      cases known : w.known.get? p with
      | some x =>
        rw [unknown, List.takeWhile_cons, known]
        intro m member
        cases List.mem_singleton.mp member
        exact ready ⟨x, learns.kept known⟩
      | none =>
        have path : unknown w (p :: d.ancestors p) = p :: unknown w (d.ancestors p) := by
          simp [unknown, known]
        rw [path] at learnt ⊢
        have rest := ih higher (Walk.shown_of_up wf link) (fun m member => learnt (by simp [member])) deep
        rintro m (_ | ⟨_, member⟩)
        · exact ready (learns.learnt p (learnt (by simp)))
        · exact rest m member

theorem ancestors_nodup (wf : d.WellFormed) (n : NodeId) : (n :: d.ancestors n).Nodup := by
  induction steps : d.depth n generalizing n with
  | zero =>
    cases link : d.up n with
    | some p =>
      rw [wf.depth_up link] at steps
      omega
    | none =>
      rw [wf.ancestors_eq, link]
      exact List.nodup_singleton n
  | succ k ih =>
    refine List.nodup_cons.mpr ⟨fun member => ?_, ?_⟩
    · obtain ⟨p, link, under⟩ := wf.mem_ancestors member
      exact Dom.Under.not_above wf link under
    · rw [wf.ancestors_eq]
      cases link : d.up n with
      | none => exact List.nodup_nil
      | some p =>
        rw [wf.depth_up link] at steps
        exact ih p (Nat.succ.inj steps)

section

variable (dom : s.site.dom w.host = d) (wf : d.WellFormed) (holds : Holds s own w) (here : w.host = host)
  (under : d.Under n d.root)

include dom wf holds here under

theorem ensurePath_learns (few : ((ensurePath own host n).after s).Few) :
    ∃ w', Learns own (unknown w (d.ancestors n)) s ((ensurePath own host n).after s) w w' ∧
      Names w' (unknown w (d.ancestors n)) ((ensurePath own host n).result s) := by
  unfold ensurePath at few ⊢
  simp only [Act.after_bind, Act.result_bind, Act.after_get, Act.result_get] at few ⊢
  rw [← here, dom, here, Walk.visibleAncestors_eq wf under] at few ⊢
  exact refUntilKnown_learns holds here (List.nodup_cons.mp (ancestors_nodup wf n)).2 few

theorem queryReply_tells (shown : Walk.shown d .all n = true)
    (few : ((queryReply own host (some n)).after s).Few) :
    ∃ w', Tells own d s ((queryReply own host (some n)).after s) w w' (n :: unknown w (d.ancestors n)) ∧
      (queryReply own host (some n)).result s =
        [("node", (formOf s w' n).toJson), ("newNodes", sheet s w' (unknown w (d.ancestors n)))] := by
  have steps := orderly_steps own host
  unfold queryReply at few ⊢
  simp only [Act.after_bind, Act.result_bind, Act.after_pure, Act.result_pure] at few ⊢
  generalize made : (ref own host n).after s = s₁ at few ⊢
  generalize led : (ensurePath own host n).after s₁ = s₂ at few ⊢
  have few₂ : s₂.Few :=
    Nat.le_trans (Nat.le_trans (steps.optionalForm _ s₂ trivial).later (steps.forms _ _ trivial).later) few
  have few₁ : s₁.Few :=
    Nat.le_trans (led ▸ (steps.ensurePath n s₁ trivial).later) few₂
  obtain ⟨w₁, first, known⟩ := ref_learns holds here n (made ▸ few₁)
  rw [made] at first
  obtain ⟨w₂, next, names⟩ := ensurePath_learns (first.dom_eq dom) wf first.holds (first.host_eq.trans here)
    under (led ▸ few₂)
  rw [first.unknown_eq (List.nodup_cons.mp (ancestors_nodup wf n)).1] at next names
  rw [led] at next
  have both : Learns own (n :: unknown w (d.ancestors n)) s s₂ w w₂ := first.trans next
  have ready := ready_path wf under shown both (List.subset_cons_self _ _)
  obtain ⟨after, result⟩ := form?_known (both.dom_eq dom) wf both.holds (ready n (by simp)) (next.kept known)
  obtain ⟨after', result'⟩ := forms_known (both.dom_eq dom) wf both.holds names
    fun m member => ready m (by simp [member])
  simp only [form, Act.after_bind, Act.result_bind, Act.after_pure, Act.result_pure, after, result, after',
    result', formOf_unmoved both.unmoved]
  exact ⟨w₂, ⟨both, ready⟩, rfl⟩

end

/-! ### Nodes of a list -/

theorem Learns.congr (learns : Learns own nodes s t w w') (same : ∀ n, n ∈ nodes ↔ n ∈ nodes') :
    Learns own nodes' s t w w' :=
  { learns with
    new := fun known => (learns.new known).imp_right fun ⟨member, named⟩ => ⟨(same _).mp member, named⟩
    learnt := fun n member => learns.learnt n ((same n).mpr member) }

section

variable (dom : s.site.dom w.host = d) (wf : d.WellFormed) (holds : Holds s own w) (here : w.host = host)

include dom wf holds here

theorem fetch_learns (under : d.Under n d.root) (shown : Walk.shown d .all n = true)
    (few : ((NodeList.fetch own host n).after s).Few) :
    let found := (NodeList.fetch own host n).result s
    ∃ w' path, Learns own (n :: path) s ((NodeList.fetch own host n).after s) w w' ∧
      w'.known.get? n = some found.2 ∧ Names w' path found.1 ∧ ∀ m ∈ n :: path, Ready d w' m := by
  simp only [NodeList.fetch, Act.after_bind, Act.result_bind, Act.after_pure, Act.result_pure] at few ⊢
  have steps := orderly_steps own host
  have later := (steps.ref n ((ensurePath own host n).after s) trivial).later
  obtain ⟨w₁, first, names⟩ := ensurePath_learns dom wf holds here under (Nat.le_trans later few)
  obtain ⟨w₂, next, known⟩ := ref_learns first.holds (first.host_eq.trans here) n few
  have both := (first.trans next).congr fun m => List.perm_append_comm.mem_iff
  exact ⟨w₂, unknown w (d.ancestors n), both, known, next.names names,
    ready_path wf under shown both (List.subset_cons_self _ _)⟩

theorem mapM_fetch_learns (under : ∀ n ∈ nodes, d.Under n d.root ∧ Walk.shown d .all n = true)
    (few : ((nodes.mapM (NodeList.fetch own host)).after s).Few) :
    let found := (nodes.mapM (NodeList.fetch own host)).result s
    ∃ w' path, Learns own (nodes ++ path) s ((nodes.mapM (NodeList.fetch own host)).after s) w w' ∧
      Names w' nodes (found.map Prod.snd) ∧ Names w' path (found.flatMap Prod.fst) ∧
      ∀ m ∈ nodes ++ path, Ready d w' m := by
  have steps := orderly_steps own host
  induction nodes generalizing s w with
  | nil => exact ⟨w, [], .refl holds, .nil, .nil, fun m member => nomatch member⟩
  | cons n rest ih =>
    simp only [List.mapM_cons, Act.after_bind, Act.result_bind, Act.after_pure, Act.result_pure] at few ⊢
    have later := (steps.law.mapM steps.fetch rest ((NodeList.fetch own host n).after s) trivial).later
    obtain ⟨place, shown⟩ := under n (by simp)
    obtain ⟨w₁, path₁, first, known, names, ready⟩ := fetch_learns dom wf holds here place shown
      (Nat.le_trans later few)
    obtain ⟨w₂, path₂, next, nodes, names', ready'⟩ := ih (first.dom_eq dom) first.holds
      (first.host_eq.trans here) (fun m member => under m (by simp [member])) few
    have same (m : NodeId) : m ∈ n :: path₁ ++ (rest ++ path₂) ↔ m ∈ n :: rest ++ (path₁ ++ path₂) :=
      ((List.perm_append_comm_assoc path₁ rest path₂).cons n).mem_iff
    refine ⟨w₂, path₁ ++ path₂, (first.trans next).congr same, .cons (next.kept known) nodes,
      List.rel_append (next.names names) names', fun m member => ?_⟩
    rcases List.mem_append.mp ((same m).mpr member) with early | late
    · exact (ready m early).learn next
    · exact ready' m late

end

end Walker

end RemoteInspector
