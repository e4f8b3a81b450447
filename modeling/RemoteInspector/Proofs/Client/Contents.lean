import RemoteInspector.Proofs.Client.Upkeep
/-!
What a client's tree says of the nodes themselves: links to other nodes do not touch their forms.
-/
namespace RemoteInspector

namespace KnownTree

variable {m m' : KnownTree} {name x : String}

def form? (m : KnownTree) (x : String) : Option NodeForm := (m.node? x).map (·.form)

theorem knows_iff_form? : m.knows x = true ↔ ∃ f, m.form? x = some f := by
  unfold knows Table.contains form? node?
  cases m.nodes.get? x <;> simp

/-! ### Links -/

theorem form?_update (m : KnownTree) (name y : String) (f : KnownNode → KnownNode) (g : NodeForm → NodeForm)
    (changes : ∀ k, (f k).form = g k.form) :
    (m.update name f).form? y = (m.form? y).map fun form => if name = y then g form else form := by
  unfold form?
  rw [node?_update, Option.map_map, Option.map_map]
  congr 1
  funext k
  by_cases same : name = y <;> simp [same, changes k]

theorem form?_link (m : KnownTree) (name y : String) {f : KnownNode → KnownNode} (same : ∀ k, (f k).form = k.form) :
    (m.update name f).form? y = m.form? y := by
  rw [form?_update m name y f id same]
  simp

theorem form?_linkAt (m : KnownTree) (link : Option String) (y : String) {f : KnownNode → KnownNode}
    (same : ∀ k, (f k).form = k.form) : (m.updateAt link f).form? y = m.form? y := by
  cases link with
  | none => rfl
  | some name => exact form?_link m name y same

theorem form?_unhook (m : KnownTree) (name y : String) (node : KnownNode) :
    (m.unhook name node).form? y = m.form? y := by
  rw [form?, node?_unhook, Option.map_map]
  rfl

theorem form?_reparent (m : KnownTree) (name y : String) (parent : Option String) :
    (m.reparent name parent).form? y = m.form? y := by
  unfold reparent
  cases m.node? name with
  | none => rfl
  | some node =>
    dsimp only
    split
    · rfl
    · generalize (parent.bind (m.unhook name node).node?).bind (·.child) = first
      have moved : ((m.unhook name node).update name fun n =>
          { n with prev := none, next := first, parent := parent }).form? y = m.form? y := by
        refine (form?_link _ _ _ ?_).trans (form?_unhook m name y node)
        exact fun _ => rfl
      cases parent with
      | none => exact moved
      | some p =>
        refine (form?_link _ _ _ ?_).trans ((form?_linkAt _ _ _ ?_).trans moved)
        · exact fun _ => rfl
        · exact fun _ => rfl

theorem form?_orphan (m : KnownTree) (name y : String) : (m.orphan name).form? y = m.form? y := by
  rw [← form?_reparent m name y none, orphan]
  split <;> rfl

theorem form?_adopt (m : KnownTree) (parent name y : String) : (m.adopt parent name).form? y = m.form? y :=
  form?_reparent m name y (some parent)

theorem form?_foldl {α : Type} {step : KnownTree → α → KnownTree} (same : ∀ m a, (step m a).form? x = m.form? x)
    (items : List α) (m : KnownTree) : (items.foldl step m).form? x = m.form? x := by
  induction items generalizing m with
  | nil => rfl
  | cons a rest ih => exact (ih _).trans (same m a)

/-! ### Forms that are read -/

theorem form?_renew (m : KnownTree) (form : NodeForm) (y : String) :
    (m.renew form).form? y = if form.actor = y then some form else m.form? y := by
  simp only [renew, form?, node?, Table.get?_insert]
  by_cases same : form.actor = y <;> simp [same]

theorem form?_ensure_of_knows (known : m.knows x = true) (name : String) : (m.ensure name).form? x = m.form? x := by
  unfold ensure
  split
  · rfl
  · rename_i missing
    have other : name ≠ x := by
      rintro rfl
      exact missing known
    simp [form?, node?, Table.get?_insert, other]

theorem form?_readForm_self (m : KnownTree) (form : NodeForm) : (m.readForm form).form? form.actor = some form := by
  have renewed : (m.renew form).form? form.actor = some form := (form?_renew m form form.actor).trans (if_pos rfl)
  rw [readForm_eq]
  cases form.parent with
  | none => exact renewed
  | some p =>
    rw [Option.elim_some, form?_reparent, form?_ensure_of_knows (knows_iff_form?.mpr ⟨form, renewed⟩), renewed]

theorem form?_readForm_other {form : NodeForm} (other : form.actor ≠ x) (known : m.knows x = true) :
    (m.readForm form).form? x = m.form? x := by
  have renewed : (m.renew form).form? x = m.form? x := (form?_renew m form x).trans (if_neg other)
  have kept : (m.renew form).knows x = true := by
    rw [knows_iff_form?, renewed, ← knows_iff_form?]
    exact known
  rw [readForm_eq]
  cases form.parent with
  | none => exact renewed
  | some p => rw [Option.elim_some, form?_reparent, form?_ensure_of_knows kept, renewed]

/-! ### Nodes that go -/

def Keeps (m m' : KnownTree) : Prop := ∀ x, m'.knows x = true → m'.form? x = m.form? x

theorem Keeps.of_none (left : ∀ x, m'.form? x = none ∨ m'.form? x = m.form? x) : m.Keeps m' := by
  intro x known
  obtain ⟨f, found⟩ := knows_iff_form?.mp known
  refine (left x).resolve_left fun none => ?_
  cases none.symm.trans found

theorem form?_foldl_left {α : Type} {step : KnownTree → α → KnownTree}
    (left : ∀ m a, (step m a).form? x = none ∨ (step m a).form? x = m.form? x) (items : List α) (m : KnownTree) :
    (items.foldl step m).form? x = none ∨ (items.foldl step m).form? x = m.form? x := by
  induction items generalizing m with
  | nil => exact .inr rfl
  | cons a rest ih =>
    rcases ih (step m a) with gone | same
    · exact .inl gone
    · rw [List.foldl_cons, same]
      exact left m a

theorem form?_destroyBelow (fuel : Nat) (m : KnownTree) (name x : String) :
    (destroyBelow fuel m name).form? x = none ∨ (destroyBelow fuel m name).form? x = m.form? x := by
  induction fuel generalizing m name with
  | zero => exact .inr rfl
  | succ fuel ih =>
    have below := form?_foldl_left ih ((m.reparent name none).children name) (m.reparent name none)
    rw [form?_reparent] at below
    by_cases gone : name = x
    · refine .inl ?_
      simp [destroyBelow, form?, node?, Table.get?_erase, gone]
    · have kept : (destroyBelow (fuel + 1) m name).form? x =
          (((m.reparent name none).children name).foldl (destroyBelow fuel) (m.reparent name none)).form? x := by
        simp [destroyBelow, form?, node?, Table.get?_erase, gone]
      rw [kept]
      exact below

theorem keeps_destroy (m : KnownTree) (name : String) : m.Keeps (m.destroy name) :=
  .of_none fun x => form?_destroyBelow _ m name x

theorem keeps_cleanUp (m : KnownTree) : m.Keeps m.cleanUp :=
  .of_none fun _ => form?_foldl_left (fun m name => form?_destroyBelow _ m name _) m.orphans { m with orphans := [] }

/-! ### Records -/

/-- What a record about a node says of it. -/
def told (form : NodeForm) : Mutation → NodeForm
  | .childList _ _ _ count => { form with numChildren := count }
  | record => form.apply record

theorem form?_applyRecord (record : Mutation) (known : (m.applyRecord record).1.knows x = true) :
    (m.applyRecord record).1.form? x =
      (m.form? x).map fun form => if record.target = x then told form record else form := by
  unfold applyRecord at known ⊢
  split
  · rename_i missing
    cases found : m.form? x with
    | none => rfl
    | some form =>
      have other : record.target ≠ x := by
        rintro rfl
        rw [knows_iff_form?.mpr ⟨form, found⟩] at missing
        cases missing
      simp [other]
  · rename_i there
    rw [if_neg there] at known
    cases record with
    | childList target added removed count =>
      refine (form?_update _ target x _ (fun form => { form with numChildren := count }) fun _ => rfl).trans ?_
      rw [form?_foldl fun m name => form?_adopt m target name x, form?_foldl fun m name => form?_orphan m name x]
      rfl
    | frameLoad target added removed => simp [told, NodeForm.apply]
    | documentUnload target =>
      rw [keeps_destroy m target x known]
      simp [told, NodeForm.apply]
    | attributes target key space value =>
      exact form?_update m target x _ (·.apply (.attributes target key space value)) fun _ => rfl
    | characterData target value cut =>
      exact form?_update m target x _ (·.apply (.characterData target value cut)) fun _ => rfl

theorem form?_applyRecords (records : List Mutation) (known : (m.applyRecords records).1.knows x = true) :
    (m.applyRecords records).1.form? x =
      (m.form? x).map fun form => (records.filter (·.target = x)).foldl told form := by
  induction records generalizing m with
  | nil => exact Option.map_id'.symm
  | cons record rest ih =>
    have known : ((m.applyRecord record).1.applyRecords rest).1.knows x = true := known
    have first : (m.applyRecord record).1.knows x = true := by
      obtain ⟨f, found⟩ := knows_iff_form?.mp known
      rw [ih known] at found
      obtain ⟨form, here, -⟩ := Option.map_eq_some_iff.mp found
      exact knows_iff_form?.mpr ⟨form, here⟩
    refine (ih known).trans ?_
    rw [form?_applyRecord record first, Option.map_map]
    congr 1
    funext form
    by_cases about : record.target = x <;> simp [about]

end KnownTree

end RemoteInspector
