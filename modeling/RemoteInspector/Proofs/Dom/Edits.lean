import RemoteInspector.Proofs.Site
/-!
What edits of a tree tell: each change says where the nodes it names are by then.
-/
namespace RemoteInspector

namespace Dom

variable {d d' d'' : Dom} {n p x : NodeId} {known : NodeId → Prop} {changes changes' : List Change}

/-! ### Links after an edit -/

theorem node?_update (d : Dom) (n x : NodeId) (f : Node → Node) :
    (d.update n f).node? x = if n = x then (d.node? x).map f else d.node? x :=
  Table.get?_modify _ _ _ _

theorem isDocument_congr (kind : (d'.node? x).map (·.kind) = (d.node? x).map (·.kind)) :
    d'.isDocument x = d.isDocument x := by
  unfold isDocument info?
  cases found : d.node? x <;> cases found' : d'.node? x <;> simp_all [NodeInfo.isDocument]

theorem isDocument_update {f : Node → Node} (kept : ∀ node, (f node).kind = node.kind) (n x : NodeId) :
    (d.update n f).isDocument x = d.isDocument x := by
  refine isDocument_congr ?_
  rw [node?_update]
  split
  · cases d.node? x <;> simp [kept]
  · rfl

theorem parent?_update {f : Node → Node} (kept : ∀ node, (f node).parent = node.parent) (n x : NodeId) :
    (d.update n f).parent? x = d.parent? x := by
  rw [parent?, parent?, node?_update]
  split
  · cases d.node? x <;> simp [kept]
  · rfl

theorem parent?_setParent (d : Dom) (n x : NodeId) (place : Option NodeId) :
    (d.update n fun node => { node with parent := place }).parent? x =
      if n = x then (d.node? x).bind fun _ => place else d.parent? x := by
  rw [parent?, parent?, node?_update]
  split
  · cases d.node? x <;> rfl
  · rfl

theorem parent?_unlink (d : Dom) (n x : NodeId) : (d.unlink n).parent? x = if n = x then none else d.parent? x := by
  unfold unlink
  split
  · rw [parent?_setParent]
    split
    · cases Dom.node? _ x <;> rfl
    · exact parent?_update (fun _ => by rfl) _ _
  · rename_i loose
    split
    · rename_i same
      exact same ▸ loose
    · rfl

theorem isDocument_unlink (d : Dom) (n x : NodeId) : (d.unlink n).isDocument x = d.isDocument x := by
  unfold unlink
  split
  · exact (isDocument_update (fun _ => by rfl) _ _).trans (isDocument_update (fun _ => by rfl) _ _)
  · rfl

theorem exists?_unlink (d : Dom) (n x : NodeId) : (d.unlink n).exists? x = d.exists? x := by
  unfold unlink
  split
  · simp only [exists?, node?_update]
    split <;> split <;> simp
  · rfl

theorem parent?_link (there : d.exists? n = true) (p x : NodeId) (before : Option NodeId) :
    (d.link n p before).parent? x = if n = x then some p else d.parent? x := by
  rw [link, parent?_setParent]
  split
  · rename_i same
    subst same
    have still : ((d.update p fun node => { node with children := placed n before node.children }).node? n).isSome := by
      rw [node?_update]
      split <;> simpa [exists?] using there
    obtain ⟨node, found⟩ := Option.isSome_iff_exists.mp still
    rw [found, Option.bind_some]
  · exact parent?_update (fun _ => by rfl) _ _

theorem isDocument_link (d : Dom) (n p x : NodeId) (before : Option NodeId) :
    (d.link n p before).isDocument x = d.isDocument x :=
  (isDocument_update (fun _ => by rfl) _ _).trans (isDocument_update (fun _ => by rfl) _ _)

/-! ### Telling -/

def Change.place (x : NodeId) (place : Option NodeId) : Change → Option NodeId
  | .childList target added removed => if x ∈ added then some target else if x ∈ removed then none else place
  | _ => place

/-- Changes that tell where the known nodes have gone, and take out no document. -/
structure Tells (known : NodeId → Prop) (d : Dom) (changes : List Change) (d' : Dom) : Prop where
  parents : ∀ {x}, known x → d'.parent? x = changes.foldl (Change.place x) (d.parent? x)
  documents : ∀ {x}, known x → d'.isDocument x = true → d.isDocument x = true
  removed : ∀ {x target added removed}, known x → .childList target added removed ∈ changes → x ∈ removed →
    d'.isDocument x = false

namespace Tells

theorem trans (first : Tells known d changes d') (next : Tells known d' changes' d'') :
    Tells known d (changes ++ changes') d'' where
  parents seen := by rw [List.foldl_append, ← first.parents seen, ← next.parents seen]
  documents seen document := first.documents seen (next.documents seen document)
  removed seen member gone := by
    rcases List.mem_append.mp member with early | late
    · have plain := first.removed seen early gone
      exact Bool.eq_false_iff.mpr fun document => absurd (next.documents seen document) (by simp [plain])
    · exact next.removed seen late gone

theorem quiet (parents : ∀ x, known x → d'.parent? x = d.parent? x)
    (documents : ∀ x, known x → d'.isDocument x = true → d.isDocument x = true)
    (silent : ∀ change ∈ changes, ∀ target added removed, change ≠ .childList target added removed) :
    Tells known d changes d' where
  parents := by
    intro x seen
    rw [parents x seen]
    have stays : ∀ place, changes.foldl (Change.place x) place = place := by
      intro place
      induction changes with
      | nil => rfl
      | cons change rest ih =>
        have first : Change.place x place change = place := by
          cases change with
          | childList target added removed =>
            exact absurd rfl (silent _ List.mem_cons_self target added removed)
          | _ => rfl
        rw [List.foldl_cons, first]
        exact ih fun change member => silent change (List.mem_cons_of_mem _ member)
    exact (stays _).symm
  documents := documents _
  removed _ member _ := absurd rfl (silent _ member _ _ _)

theorem detach (tree : d.Consistent) (n : NodeId) : Tells known d (d.detach n).2 (d.detach n).1 := by
  unfold Dom.detach
  cases parent : d.parent? n with
  | none => exact .quiet (fun _ _ => rfl) (fun _ _ => id) nofun
  | some p =>
    have plain : d.isDocument n = false := Bool.eq_false_iff.mpr fun document => by
      rw [tree.parent_document document] at parent
      cases parent
    constructor
    · intro x _
      simp only [parent?_unlink, List.foldl_cons, List.foldl_nil, Change.place, List.not_mem_nil, if_false,
        List.mem_singleton, eq_comm]
    · intro x _ document
      rwa [isDocument_unlink] at document
    · intro x target added removed _ member gone
      cases List.mem_singleton.mp member
      rw [isDocument_unlink, List.mem_singleton.mp gone, plain]

theorem link (there : d.exists? n = true) (p : NodeId) (before : Option NodeId) :
    Tells known d [.childList p [n] []] (d.link n p before) where
  parents _ := by
    simp only [parent?_link there, List.foldl_cons, List.foldl_nil, Change.place, List.mem_singleton,
      List.not_mem_nil, if_false, eq_comm]
  documents _ document := by rwa [isDocument_link] at document
  removed _ member gone := by
    cases List.mem_singleton.mp member
    cases gone

end Tells

/-- An edit of which the host tells all that concerns the place of known nodes: what is created is new, no
known node is deleted where it stands, and what is inserted is there. -/
def Edit.Told (known : NodeId → Prop) (d : Dom) : Edit → Prop
  | .create id _ => ¬ known id
  | .delete id => known id → d.parent? id = none
  | .insert id _ _ => d.exists? id = true
  | .childList .. => False
  | _ => True

theorem edit_tells (tree : d.Consistent) {e : Edit} (told : e.Told known d) :
    Tells known d (d.edit e).2 (d.edit e).1 := by
  cases e with
  | create id node =>
    let base : Dom := node.parent.elim d fun p =>
      d.update p fun parent => { parent with children := parent.children ++ [id] }
    have rest (x : NodeId) (seen : known x) : (d.edit (.create id node)).1.node? x = base.node? x := by
      have other : id ≠ x := fun same => told (same ▸ seen)
      exact (Table.get?_insert _ _ _ _).trans (if_neg other)
    have parents (x : NodeId) : base.parent? x = d.parent? x := by
      dsimp only [base]
      cases node.parent with
      | none => rfl
      | some p => exact parent?_update (fun _ => by rfl) p x
    have documents (x : NodeId) : base.isDocument x = d.isDocument x := by
      dsimp only [base]
      cases node.parent with
      | none => rfl
      | some p => exact isDocument_update (fun _ => by rfl) p x
    refine .quiet (fun x seen => ?_) (fun x seen document => ?_) fun _ told => absurd told List.not_mem_nil
    · rw [← parents, parent?, parent?, rest x seen]
    · rw [← documents]
      exact (isDocument_congr (by rw [rest x seen])).symm.trans document
  | delete id =>
    have rest (x : NodeId) : (d.edit (.delete id)).1.node? x = if id = x then none else (d.unlink id).node? x :=
      Table.get?_erase _ _ _
    refine .quiet (fun x seen => ?_) (fun x _ document => ?_) fun _ told => absurd told List.not_mem_nil
    · rw [parent?, rest]
      split
      · rename_i gone
        subst gone
        exact (told seen).symm
      · rename_i other
        exact (parent?_unlink d id x).trans (if_neg other)
    · rw [← isDocument_unlink d id]
      unfold isDocument info? at document ⊢
      rw [rest] at document
      split at document
      · cases document
      · exact document
  | frame id content =>
    refine .quiet (fun x _ => parent?_update (fun _ => by rfl) id x) (fun x _ document => ?_)
      fun _ told => absurd told List.not_mem_nil
    exact (isDocument_update (fun _ => by rfl) id x).symm.trans document
  | remove id => exact .detach tree id
  | insert id parent before =>
    have there : (d.detach id).1.exists? id = true := by
      rw [Dom.detach]
      split
      · rw [exists?_unlink]
        exact told
      · exact told
    exact (Tells.detach tree id).trans (.link there parent before)
  | attr id name space value =>
    refine .quiet (fun x _ => parent?_update (fun _ => by rfl) id x) (fun x _ document => ?_) ?_
    · exact (isDocument_update (fun _ => by rfl) id x).symm.trans document
    · simp [edit]
  | text id value =>
    refine .quiet (fun x _ => parent?_update (fun _ => by rfl) id x) (fun x _ document => ?_) ?_
    · exact (isDocument_update (fun _ => by rfl) id x).symm.trans document
    · simp [edit]
  | childList id added removed => exact told.elim

/-! ### Batches -/

/-- The tree after some edits, and all changes of which there is word. -/
def editAll (d : Dom) : List Edit → Dom × List Change
  | [] => (d, [])
  | e :: rest => (((d.edit e).1.editAll rest).1, (d.edit e).2 ++ ((d.edit e).1.editAll rest).2)

/-- Edits that are told of, one after the other, and keep the tree in order. -/
def ToldAll (known : NodeId → Prop) : Dom → List Edit → Prop
  | _, [] => True
  | d, e :: rest => e.Told known d ∧ (d.edit e).1.Framed ∧ ToldAll known (d.edit e).1 rest

theorem editAll_tells {edits : List Edit} (framed : d.Framed) (told : ToldAll known d edits) :
    Tells known d (d.editAll edits).2 (d.editAll edits).1 ∧ (d.editAll edits).1.Framed := by
  induction edits generalizing d with
  | nil => exact ⟨.quiet (fun _ _ => rfl) (fun _ _ => id) nofun, framed⟩
  | cons e rest ih =>
    obtain ⟨first, framed', others⟩ := told
    obtain ⟨tells, last⟩ := ih framed' others
    exact ⟨(edit_tells framed.toConsistent first).trans tells, last⟩

end Dom

/-- A site that is edited has the tree after all edits; telling of it changes no tree. -/
theorem Site.dom_edits (s : Site) (host : String) (edits : List Dom.Edit) :
    (s.edits host edits).dom host = ((s.dom host).editAll edits).1 := by
  have edited : ∀ found, (edits.foldl (fun p e => ((p.1.edit host e).1, p.2 ++ (p.1.edit host e).2))
      (s, found)).1.dom host = ((s.dom host).editAll edits).1 := by
    induction edits generalizing s with
    | nil => exact fun _ => rfl
    | cons e rest ih =>
      intro found
      have first : (s.edit host e).1.dom host = ((s.dom host).edit e).1 := by
        simp [Site.edit, Site.dom, Site.host_setHost]
      rw [List.foldl_cons, Dom.editAll, ← first]
      exact ih (s.edit host e).1 _
  have posted (t : Site) (ids : List ObserverId) (post : Site → ObserverId → Site)
      (same : ∀ t id, (post t id).dom host = t.dom host) : (ids.foldl post t).dom host = t.dom host := by
    induction ids generalizing t with
    | nil => rfl
    | cons id rest ih => rw [List.foldl_cons, ih, same]
  rw [Site.edits]
  refine (posted _ _ _ fun t id => ?_).trans (edited [])
  split <;> rfl

end RemoteInspector
