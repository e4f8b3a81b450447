import RemoteInspector.Proofs.Inspector.Knowledge
import RemoteInspector.Proofs.Inspector.Pages
import RemoteInspector.Proofs.Inspector.Queues
import RemoteInspector.Proofs.Serve.Answer
/-!
What a walker forgets: releasing a node releases the known nodes that hang on it by known nodes.
-/
namespace RemoteInspector

/-! ### The actor of a node leaves -/

/-- A walker forgets a node; any other actor has nothing to forget. -/
def Actor.forget (node : NodeId) (name : String) : Actor → Actor
  | .walker w => .walker (w.forget node name)
  | other => other

namespace Scene

variable {s : Scene} {name : String}

theorem releaseOne_low (low : ∀ a, s.find? name = some a → 5 ≤ a.rank) :
    (s.releaseOne name).site = s.site ∧ ∀ x, (s.releaseOne name).find? x = if x = name then none else s.find? x := by
  unfold releaseOne
  cases found : s.find? name with
  | none =>
    refine ⟨rfl, fun x => ?_⟩
    by_cases same : x = name <;> simp [same, found]
  | some a =>
    have plain : (s.setRegistry (·.remove name)).destroy name a = s.setRegistry (·.remove name) := by
      have high := low a found
      cases a with
      | longString | object => rfl
      | _ => simp [Actor.rank] at high
    simp only [plain]
    exact ⟨rfl, Registry.find?_remove _ _⟩

theorem foldl_releaseOne_low {names : List String} (low : ∀ x ∈ names, ∀ a, s.find? x = some a → 5 ≤ a.rank) :
    (names.foldl releaseOne s).site = s.site ∧
      ∀ x, (names.foldl releaseOne s).find? x = if x ∈ names then none else s.find? x := by
  induction names generalizing s with
  | nil => exact ⟨rfl, fun x => by simp⟩
  | cons name rest ih =>
    obtain ⟨site, find⟩ := releaseOne_low (low name (by simp))
    obtain ⟨site', find'⟩ := ih (s := s.releaseOne name) fun x member a found => by
      rw [find] at found
      split at found
      · cases found
      · exact low x (by simp [member]) a found
    refine ⟨site'.trans site, fun x => ?_⟩
    rw [List.foldl_cons, find', find]
    by_cases later : x ∈ rest
    · simp [later]
    · by_cases same : x = name <;> simp [later, same]

theorem find?_destroy_node (s : Scene) (name : String) (actor : NodeActor) (x : String) :
    (s.destroy name (.node actor)).find? x =
      (s.find? x).map fun a => if x = actor.walker then a.forget actor.node name else a := by
  unfold destroy
  dsimp only
  split
  · exact Scene.find?_update _ _ _ _
  · exact Scene.find?_update _ _ _ _

theorem releaseOne_node {actor : NodeActor} (found : s.find? name = some (.node actor)) (x : String) :
    (s.releaseOne name).find? x = if x = name then none else
      (s.find? x).map fun a => if x = actor.walker then a.forget actor.node name else a := by
  have removed : (s.setRegistry (·.remove name)).find? x = if x = name then none else s.find? x :=
    Registry.find?_remove _ _ _
  rw [releaseOne, found]
  dsimp only
  rw [find?_destroy_node, removed]
  by_cases same : x = name <;> simp [same]

end Scene

namespace Registry

variable {id : ConnectionId} {r : Registry} {name : String}

theorem Valid.releaseOrder_node (valid : r.Valid id) (has : r.Has name 4) (fuel : Nat) :
    ∃ before, r.releaseOrder fuel name = before ++ [name] ∧ ∀ x ∈ before, ∃ rank, r.Has x rank ∧ 5 ≤ rank := by
  cases fuel with
  | zero => exact ⟨[], rfl, fun x member => nomatch member⟩
  | succ fuel =>
    refine ⟨_, rfl, fun x member => ?_⟩
    obtain ⟨child, owned, below⟩ := List.mem_flatMap.mp member
    obtain ⟨rank, has', lower⟩ := valid.rank_lt (List.mem_reverse.mp owned) has
    obtain ⟨rank', has'', le⟩ := valid.rank_le (under_of_mem_releaseOrder below) has'
    exact ⟨rank', has'', Nat.le_trans lower le⟩

end Registry

namespace Scene

variable {s : Scene} {name : String}

/-- A node leaves, and its walker forgets it; besides, only actors of the lowest rank leave. -/
theorem release_node (valid : s.Valid) {actor : NodeActor}
    (found : s.find? name = some (.node actor)) :
    ∃ owned : List String, (∀ x ∈ owned, ∀ a, s.find? x = some a → 5 ≤ a.rank) ∧
      ∀ x, (s.release name).find? x = if x = name ∨ x ∈ owned then none else
        (s.find? x).map fun a => if x = actor.walker then a.forget actor.node name else a := by
  have has : s.conn.registry.Has name 4 := Registry.has_of_find? found
  obtain ⟨owned, order, below⟩ := valid.releaseOrder_node has s.conn.registry.entries.length
  have low : ∀ x ∈ owned, ∀ a, s.find? x = some a → 5 ≤ a.rank := by
    intro x member a there
    obtain ⟨rank, has', low⟩ := below x member
    exact valid.has_unique has' (Registry.has_of_find? there) ▸ low
  have other : name ∉ owned := fun member => absurd (low name member _ found) (by simp [Actor.rank])
  obtain ⟨-, find⟩ := foldl_releaseOne_low low
  refine ⟨owned, low, fun x => ?_⟩
  have still : (owned.foldl releaseOne s).find? name = some (.node actor) := by rw [find, if_neg other, found]
  rw [release, order, List.foldl_append, List.foldl_cons, List.foldl_nil, releaseOne_node still, find]
  by_cases same : x = name
  · simp [same]
  · by_cases member : x ∈ owned <;> simp [same, member]

end Scene

namespace Walker

variable {d : Dom} {s t u : Scene} {own host name : String} {w w' w'' : WalkerActor} {n m c : NodeId}
variable {gone gone' : NodeId → Prop}

/-- The walker has forgotten some nodes, and nothing else has changed that stands as high as they. -/
structure Forgets (own : String) (gone : NodeId → Prop) (s t : Scene) (w w' : WalkerActor) : Prop where
  silent : s.Silent t
  unmoved : s.site.Unmoved t.site
  holds : Holds t own w'
  next : t.conn.registry.next = s.conn.registry.next
  rest : w' = { w with known := w'.known, orphans := w'.orphans }
  lost : ∀ {n}, gone n → w'.known.get? n = none
  kept : ∀ {n}, ¬ gone n → w'.known.get? n = w.known.get? n
  orphans : ∀ {x}, x ∈ w'.orphans ↔ x ∈ w.orphans ∧ ∀ n, w.known.get? n = some x → ¬ gone n
  old : ∀ {x a}, x ≠ own → t.find? x = some a → s.find? x = some a
  high : ∀ {x a}, x ≠ own → s.find? x = some a → a.rank ≤ 4 → (∀ b, a ≠ .node b) → t.find? x = some a

namespace Forgets

theorem refl (holds : Holds s own w) : Forgets own (fun _ => False) s s w w where
  silent := .refl s
  unmoved := .refl _
  holds := holds
  next := rfl
  rest := rfl
  lost := False.elim
  kept _ := rfl
  orphans := by simp
  old _ := id
  high _ found _ _ := found

theorem known_of (forgets : Forgets own gone s t w w') (known : w'.known.get? n = some name) :
    ¬ gone n ∧ w.known.get? n = some name := by
  have stays : ¬ gone n := fun left => nomatch (forgets.lost left).symm.trans known
  exact ⟨stays, (forgets.kept stays).symm.trans known⟩

theorem congr (forgets : Forgets own gone s t w w') (same : ∀ n, gone n ↔ gone' n) : Forgets own gone' s t w w' := by
  rw [funext fun n => propext (same n)] at forgets
  exact forgets

theorem trans (first : Forgets own gone s t w w') (next : Forgets own gone' t u w' w'') :
    Forgets own (fun n => gone n ∨ gone' n) s u w w'' where
  silent := first.silent.trans next.silent
  unmoved := first.unmoved.trans next.unmoved
  holds := next.holds
  next := next.next.trans first.next
  rest := by rw [next.rest, first.rest]
  lost := by
    intro n left
    by_cases late : gone' n
    · exact next.lost late
    · rw [next.kept late]
      exact first.lost (left.resolve_right late)
  kept stays := (next.kept (stays ∘ .inr)).trans (first.kept (stays ∘ .inl))
  orphans := by
    intro x
    rw [next.orphans, first.orphans]
    constructor
    · rintro ⟨⟨member, early⟩, late⟩
      refine ⟨member, fun n known left => ?_⟩
      rcases left with left | left
      · exact early n known left
      · exact late n ((first.kept (early n known)).trans known) left
    · rintro ⟨member, stays⟩
      refine ⟨⟨member, fun n known left => stays n known (.inl left)⟩, fun n known left => ?_⟩
      exact stays n (first.known_of known).2 (.inr left)
  old other found := first.old other (next.old other found)
  high other found low plain := next.high other (first.high other found low plain) low plain

end Forgets

theorem release_forgets (holds : Holds s own w) (known : w.known.get? n = some name) :
    ∃ w', Forgets own (· = n) s (s.release name) w w' := by
  obtain ⟨o, found⟩ := holds.known known
  obtain ⟨owned, low, find⟩ := Scene.release_node holds.valid found
  have silent := Scene.Silent.release s name
  have notOwned {x : String} {a : Actor} (there : s.find? x = some a) (rank : a.rank ≤ 4) : x ∉ owned :=
    fun member => absurd (low x member a there) (by omega)
  have other : own ≠ name := (holds.ne_own known).symm
  have one {m : NodeId} (same : w.known.get? m = some name) : m = n := holds.known_inj same known
  have get (m : NodeId) : (w.forget n name).known.get? m = if m = n then none else w.known.get? m := by
    simp only [WalkerActor.forget, known, if_true, Table.get?_erase]
    by_cases same : n = m
    · simp [same]
    · simp [same, Ne.symm same]
  refine ⟨w.forget n name, ?_⟩
  constructor
  case silent => exact silent
  case unmoved => exact Scene.release_unmoved s name
  case holds =>
    refine ⟨silent.id ▸ Scene.release_valid holds.valid name, ?_, ?_, ?_⟩
    · have high := notOwned holds.walker (by simp [Actor.rank])
      simp [find, other, high, holds.walker, Actor.forget]
    · intro m x here
      rw [get] at here
      split at here
      · cases here
      · rename_i differs
        obtain ⟨o', found'⟩ := holds.known here
        have named : x ≠ name := by
          rintro rfl
          exact differs (one here)
        have high := notOwned found' (by simp [Actor.rank])
        exact ⟨o', by simp [find, named, high, found', holds.ne_own here, WalkerActor.forget]⟩
    · intro x actor there
      rw [find] at there
      split at there
      · cases there
      · rename_i stays
        obtain ⟨a, old, new⟩ := Option.map_eq_some_iff.mp there
        split at new
        · subst x
          rw [holds.walker] at old
          cases old
          cases new
        · subst new
          obtain ⟨host, walker, here⟩ := holds.node old
          refine ⟨host, walker, ?_⟩
          rw [get, if_neg fun same => ?_]
          · exact here
          · rw [same, known] at here
            exact stays (.inl (Option.some.inj here).symm)
  case next => exact (Scene.releaseAllOf_pruned s _).next
  case rest => rfl
  case lost =>
    rintro m rfl
    rw [get, if_pos rfl]
  case kept =>
    intro m differs
    rw [get, if_neg differs]
  case orphans =>
    intro x
    simp only [WalkerActor.forget, List.mem_filter, decide_eq_true_eq]
    refine and_congr_right fun _ => ⟨fun named m here same => ?_, fun stays same => ?_⟩
    · rw [same, known] at here
      exact named (Option.some.inj here).symm
    · exact stays n (same ▸ known) rfl
  case old =>
    intro x a differs there
    rw [find] at there
    split at there
    · cases there
    · obtain ⟨b, old, new⟩ := Option.map_eq_some_iff.mp there
      exact new ▸ old
  case high =>
    intro x a differs there rank plain
    have named : x ≠ name := by
      rintro rfl
      exact plain _ (Option.some.inj (there.symm.trans found))
    simp [find, named, notOwned there rank, there, differs]

/-! ### Everything below leaves first -/

/-- A shown node that the walker knows, right below another. -/
def Link (d : Dom) (w : WalkerActor) (c p : NodeId) : Prop :=
  d.up c = some p ∧ Walk.shown d .all c = true ∧ ∃ x, w.known.get? c = some x

/-- Known nodes lead from the first up to the second. -/
def Hangs (d : Dom) (w : WalkerActor) : NodeId → NodeId → Prop := Relation.ReflTransGen (Link d w)

theorem Hangs.under (hangs : Hangs d w m n) : d.Under m n :=
  Relation.ReflTransGen.mono (fun _ _ link => link.1) _ _ hangs

theorem Forgets.link_of (forgets : Forgets own gone s t w w') (link : Link d w' c n) : Link d w c n :=
  ⟨link.1, link.2.1, link.2.2.imp fun _ known => (forgets.known_of known).2⟩

theorem Forgets.hangs_iff (forgets : Forgets own gone s t w w')
    (closed : ∀ c p, Link d w c p → gone p → gone c) : gone m ∨ Hangs d w' m c ↔ gone m ∨ Hangs d w m c := by
  constructor
  · exact Or.imp_right fun hangs =>
      Relation.ReflTransGen.mono (fun _ _ link => forgets.link_of link) _ _ hangs
  · rintro (left | hangs)
    · exact .inl left
    · induction hangs using Relation.ReflTransGen.head_induction_on with
      | refl => exact .inr .refl
      | @head m p link _ ih =>
        rcases ih with left | rest
        · exact .inl (closed m p link left)
        · by_cases left : gone m
          · exact .inl left
          · obtain ⟨up, shown, x, known⟩ := link
            exact .inr (.head ⟨up, shown, x, (forgets.kept left).trans known⟩ rest)

def HangsOn (d : Dom) (w : WalkerActor) (tops : List NodeId) (m : NodeId) : Prop :=
  ∃ c ∈ tops, (∃ x, w.known.get? c = some x) ∧ Hangs d w m c

theorem HangsOn.below {tops : List NodeId} (hangsOn : HangsOn d w tops c) (hangs : Hangs d w m c) :
    HangsOn d w tops m :=
  let ⟨top, member, known, above⟩ := hangsOn
  ⟨top, member, known, Relation.ReflTransGen.trans hangs above⟩

theorem Forgets.more {tops : List NodeId} (first : Forgets own (HangsOn d w tops) s t w w')
    (next : (∃ x, w'.known.get? c = some x) → Forgets own (Hangs d w' · c) t u w' w'')
    (nothing : w'.known.get? c = none → u = t ∧ w'' = w') : Forgets own (HangsOn d w (tops ++ [c])) s u w w'' := by
  have closed (c p : NodeId) (link : Link d w c p) (left : HangsOn d w tops p) : HangsOn d w tops c :=
    left.below (.single link)
  have split (m : NodeId) : HangsOn d w (tops ++ [c]) m ↔
      HangsOn d w tops m ∨ (∃ x, w.known.get? c = some x) ∧ Hangs d w m c := by
    simp [HangsOn, or_and_right, exists_or]
  cases known : w'.known.get? c with
  | some x =>
    refine (first.trans (next ⟨x, known⟩)).congr fun m => ?_
    rw [split, first.hangs_iff closed, and_iff_right ⟨x, (first.known_of known).2⟩]
  | none =>
    obtain ⟨rfl, rfl⟩ := nothing known
    refine first.congr fun m => ?_
    rw [split]
    refine (or_iff_left_of_imp ?_).symm
    rintro ⟨⟨x, old⟩, hangs⟩
    have left : HangsOn d w tops c := by
      by_contra stays
      exact nomatch known.symm.trans ((first.kept stays).trans old)
    exact left.below hangs

theorem hangs_iff_below (wf : d.WellFormed) : Hangs d w m n ↔ HangsOn d w (Walk.below d .all n) m ∨ m = n := by
  constructor
  · intro hangs
    rcases Relation.ReflTransGen.cases_tail hangs with rfl | ⟨c, rest, up, shown, known⟩
    · exact .inr rfl
    · exact .inl ⟨c, (Walk.mem_below wf).mpr ⟨up, shown⟩, known, rest⟩
  · rintro (⟨c, member, known, rest⟩ | rfl)
    · obtain ⟨up, shown⟩ := (Walk.mem_below wf).mp member
      exact Relation.ReflTransGen.tail rest ⟨up, shown, known⟩
    · exact .refl

theorem forM_forgets {α : Type} {act : α → Act PUnit} (target : α → NodeId) {items : List α}
    (each : ∀ a ∈ items, ∀ {gone t w₁}, Forgets own gone s t w w₁ → ∃ w₂,
      ((∃ x, w₁.known.get? (target a) = some x) →
        Forgets own (Hangs d w₁ · (target a)) t ((act a).after t) w₁ w₂) ∧
      (w₁.known.get? (target a) = none → (act a).after t = t ∧ w₂ = w₁))
    {before : List NodeId} (first : Forgets own (HangsOn d w before) s t w w') :
    ∃ w₂, Forgets own (HangsOn d w (before ++ items.map target)) s ((items.forM act).after t) w w₂ := by
  induction items generalizing before t w' with
  | nil => exact ⟨w', by simpa using first⟩
  | cons a rest ih =>
    obtain ⟨w₁, released, gone⟩ := each a (by simp) first
    obtain ⟨w₂, last⟩ := ih (fun b member => each b (by simp [member])) (first.more released gone)
    exact ⟨w₂, by simpa using last⟩

def visit (own host : String) (fuel : Nat) (child : NodeId) : Act Unit := do
  match (← get).known? own child with
  | some below => releaseBelow own host fuel below
  | none => return ()

theorem after_releaseBelow {actor : NodeActor} (live : s.node? name = some actor) (fuel : Nat) :
    (releaseBelow own host (fuel + 1) name).after s =
      (((Walk.below (s.site.dom host) .all actor.node).forM (visit own host fuel)).after s).release name := by
  rw [releaseBelow, Act.after_get_bind, live]
  exact Act.after_bind _ _ _

section

variable (dom : s.site.dom w.host = d) (wf : d.WellFormed) (holds : Holds s own w) (here : w.host = host)
  (known : w.known.get? n = some name)

include dom wf holds here known

theorem releaseBelow_forgets {fuel : Nat} (enough : d.nodes.length < fuel + d.depth n) :
    ∃ w', Forgets own (Hangs d w · n) s ((releaseBelow own host fuel name).after s) w w' := by
  induction fuel generalizing s w n name with
  | zero => exact absurd (d.depth_le n) (by omega)
  | succ fuel ih =>
    obtain ⟨o, actor⟩ := holds.node? known
    rw [after_releaseBelow actor, ← here, dom, here]
    have each (c : NodeId) (member : c ∈ Walk.below d .all n) {gone : NodeId → Prop} {t : Scene}
        {w₁ : WalkerActor} (first : Forgets own gone s t w w₁) :
        ∃ w₂, ((∃ x, w₁.known.get? c = some x) →
            Forgets own (Hangs d w₁ · c) t ((visit own host fuel c).after t) w₁ w₂) ∧
          (w₁.known.get? c = none → (visit own host fuel c).after t = t ∧ w₂ = w₁) := by
      have deeper : d.nodes.length < fuel + d.depth c := by
        rw [wf.depth_up ((Walk.mem_below wf).mp member).1]
        omega
      have host₁ : w₁.host = w.host := by rw [first.rest]
      have dom₁ : t.site.dom w₁.host = d := by rw [host₁, first.unmoved.dom, dom]
      have look : t.known? own c = w₁.known.get? c := first.holds.known? c
      cases there : w₁.known.get? c with
      | none =>
        refine ⟨w₁, fun found => ?_, fun _ => ⟨by simp [visit, look, there], rfl⟩⟩
        exact nomatch found.choose_spec
      | some x =>
        obtain ⟨w₂, below⟩ := ih dom₁ first.holds (host₁.trans here) there deeper
        refine ⟨w₂, fun _ => ?_, fun gone => nomatch gone⟩
        simpa [visit, look, there] using below
    have start : Forgets own (HangsOn d w []) s s w w := (Forgets.refl holds).congr fun m => by simp [HangsOn]
    obtain ⟨w₁, first⟩ := forM_forgets id each start
    rw [List.nil_append, List.map_id] at first
    -- a node does not hang on its own children, so it is still there
    have still : w₁.known.get? n = some name := by
      rw [first.kept, known]
      rintro ⟨c, member, -, hangs⟩
      exact Dom.Under.not_above wf ((Walk.mem_below wf).mp member).1 hangs.under
    obtain ⟨w₂, last⟩ := release_forgets first.holds still
    exact ⟨w₂, (first.trans last).congr fun m => (hangs_iff_below wf).symm⟩

theorem releaseNode_forgets : ∃ w', Forgets own (Hangs d w · n) s ((releaseNode own host name).after s) w w' := by
  have enough : d.nodes.length < d.reach + d.depth n := Nat.lt_of_lt_of_le d.nodes_lt_reach (Nat.le_add_right _ _)
  rw [releaseNode, Act.after_get_bind, ← here, dom]
  exact releaseBelow_forgets dom wf holds rfl known enough

end

theorem decide_releaseNode {packet : Fields} {act : Act Reply} (decided : decide s own w "releaseNode" packet = .ok act) :
    ∃ name n, packet.get? "node" = some (.str name) ∧ s.lookupNode name = .ok n ∧ act = (do
      releaseNode own w.host name return []) := by
  simp only [decide] at decided
  obtain ⟨name, given, decided⟩ := Decision.bind_ok decided
  obtain ⟨n, live, decided⟩ := Decision.bind_ok decided
  cases decided
  exact ⟨name, n, Request.string?_eq_some.mp (textArgument_ok given), live, rfl⟩

/-! ### Fetching records -/

def emptied (s : Scene) (own : String) : Scene :=
  (Act.updateWalker own fun w => { w with orphans := [] }).after
    ((Act.updateWalker own fun w => { w with queue := [] }).after s)

theorem after_takeMutations (own : String) (w : WalkerActor) (s : Scene) : (takeMutations own w true).after s =
    (w.orphans.forM (releaseNode own w.host)).after (emptied s own) := by
  rw [takeMutations, Act.after_bind, if_pos rfl, Act.after_bind, Act.after_bind]
  exact Act.after_pure _ _

end Walker

end RemoteInspector
