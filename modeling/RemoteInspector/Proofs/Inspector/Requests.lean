import RemoteInspector.Proofs.Inspector.Telling
import RemoteInspector.Proofs.Json.Fields
/-!
What a walker answers: it tells of nodes whose parents it knows, and of every node that it gets to know.
-/
namespace RemoteInspector

def Reply.Sent (members : Reply) (reply : Fields) : Prop :=
  ∀ key, key ≠ "from" → key ≠ "requestId" → reply.get? key = (Fields.ofList members).get? key

namespace Walker

variable {page : NodePage}

variable {d : Dom} {s t u : Scene} {own host name : String} {w w' w'' : WalkerActor} {n p x : NodeId}
variable {nodes nodes' told : List NodeId} {packet : Fields} {act : Act Reply} {m : Method}

/-! ### Nodes that may be asked about -/

/-- A shown node of which the walker knows all that is above it, up to the root document. -/
structure Firm (d : Dom) (w : WalkerActor) (n : NodeId) : Prop where
  under : d.Under n d.root
  shown : Walk.shown d .all n = true
  known : ∀ {a}, d.Under n a → ∃ x, w.known.get? a = some x

namespace Firm

theorem ready (firm : Firm d w n) : Ready d w n :=
  ⟨firm.under, firm.shown, fun _ link => firm.known (.single link)⟩

theorem above (wf : d.WellFormed) (firm : Firm d w n) (under : d.Under n p) : Firm d w p where
  under := by
    rcases under.comparable firm.under with below | above
    · exact below
    · rcases above.cases_up with rfl | ⟨q, link, -⟩
      · exact .refl
      · exact nomatch wf.up_root.symm.trans link
  shown := by
    cases under with
    | refl => exact firm.shown
    | tail _ link => exact Walk.shown_of_up wf link
  known higher := firm.known (Relation.ReflTransGen.trans under higher)

theorem child (firm : Firm d w p) (link : d.up n = some p) (shown : Walk.shown d .all n = true) : Ready d w n :=
  ⟨.step link firm.under, shown, fun _ up => Option.some.inj (link.symm.trans up) ▸ firm.known .refl⟩

theorem beside (wf : d.WellFormed) (firm : Firm d w n) (beside : Walk.Beside d n x) : Ready d w x := by
  rcases beside with rfl | ⟨p, parent, parent', shown⟩
  · exact firm.ready
  · exact (firm.above wf (.single (Dom.WellFormed.up_of_parent parent))).child
      (Dom.WellFormed.up_of_parent parent') shown

theorem root (wf : d.WellFormed) (known : ∃ x, w.known.get? d.root = some x) : Firm d w d.root where
  under := .refl
  shown := Walk.shown_document wf wf.root
  known under := by
    rcases under.cases_up with rfl | ⟨q, link, -⟩
    · exact known
    · exact nomatch wf.up_root.symm.trans link

end Firm

/-- A walker is asked about nodes all of whose ancestors it knows, and for nodes of every kind. -/
structure Asked (s : Scene) (own : String) (d : Dom) (w : WalkerActor) (packet : Fields) : Prop where
  dom : s.site.dom w.host = d
  wf : d.WellFormed
  holds : Holds s own w
  root : w.root = d.root
  rooted : ∃ x, w.known.get? d.root = some x
  firm : ∀ key ∈ ["node", "center", "start"], ∀ name n, packet.get? key = some (.str name) →
    w.known.get? n = some name → Firm d w n
  all : packet.get? "whatToShow" = none

theorem Holds.lookupNode (holds : Holds s own w) (found : s.lookupNode name = .ok n) : w.known.get? n = some name := by
  unfold Scene.lookupNode at found
  split at found
  · rename_i actor live
    cases found
    exact (holds.node (Scene.node?_eq_some.mp live)).2.2
  · cases found

namespace Asked

variable (asked : Asked s own d w packet)

include asked

theorem nodeArgument? {key : String} (listed : key ∈ ["node", "center", "start"])
    (given : nodeArgument? s packet key = .ok (some n)) : Firm d w n := by
  obtain ⟨name, here, found⟩ := nodeArgument?_some given
  exact asked.firm key listed name n here (asked.holds.lookupNode found)

theorem nodeArgument {key : String} (listed : key ∈ ["node", "center", "start"])
    (given : nodeArgument s packet key = .ok n) : Firm d w n := asked.nodeArgument? listed (nodeArgument_ok given)

theorem documentArgument {node : Option NodeId} (given : documentArgument s w packet = .ok node) :
    ∀ doc ∈ node, Firm d w doc := by
  obtain ⟨argument, found, given⟩ := Decision.bind_ok given
  intro doc member
  cases argument with
  | none =>
    cases given
    cases member
    rw [asked.root]
    exact .root asked.wf asked.rooted
  | some n =>
    have firm := asked.nodeArgument? (by simp) found
    cases given
    have owner : d.documentOf? n = some doc := asked.dom ▸ member
    exact firm.above asked.wf (asked.wf.isDocument_of_documentOf? owner).2

theorem pageOptions {o : PageOptions} (given : pageOptions s packet = .ok o) :
    o.filter = .all ∧ (∀ c ∈ o.center, Firm d w c) ∧ ∀ c ∈ o.start, Firm d w c := by
  obtain ⟨center, found, given⟩ := Decision.bind_ok given
  obtain ⟨start, found', given⟩ := Decision.bind_ok given
  cases given
  refine ⟨by simp [filterArgument, asked.all], ?_, ?_⟩
  · rintro c rfl
    exact asked.nodeArgument? (by simp) found
  · rintro c rfl
    exact asked.nodeArgument? (by simp) found'

end Asked

/-! ### Replies -/

/-- Carrying out a request tells of some nodes, and the reply holds their forms in that order. -/
def Describes (own : String) (d : Dom) (s : Scene) (w : WalkerActor) (m : Method) (act : Act Reply) : Prop :=
  (act.after s).conn.registry.next ≤ UInt32.size → ∃ w' told, Tells own d s (act.after s) w w' told ∧
    ∀ reply, Reply.Sent (act.result s) reply →
      m.replyForms (.obj reply) = told.map fun n => ("domnode", (formOf s w' n).toJson)

theorem forms_formOf (n : NodeId) :
    Schema.domNode.forms (formOf s w n).toJson = [("domnode", (formOf s w n).toJson)] := by
  simp [Schema.domNode, NodeForm.toJson, Json.object, Shape.forms]

theorem forms_sheet (told : List NodeId) :
    Schema.nodes.forms (sheet s w told) = told.map fun n => ("domnode", (formOf s w n).toJson) := by
  induction told with
  | nil => simp [Schema.nodes, sheet, Shape.forms]
  | cons n rest ih =>
    simp only [Schema.nodes, sheet, Shape.forms] at ih
    simp only [Schema.nodes, sheet, Shape.forms, List.map_cons, List.flatMap_cons, forms_formOf, ih,
      List.singleton_append]

theorem Tells.none (holds : Holds s own w) : Tells own d s s w w [] :=
  ⟨.refl holds, fun _ member => nomatch member⟩

section

variable (asked : Asked s own d w packet)

include asked

theorem nodeReply_describes {node : Option NodeId} (ready : ∀ n ∈ node, Ready d w n)
    (response : m.response = [("node", Schema.domNode)]) : Describes own d s w m (nodeReply own w.host node) := by
  intro few
  cases node with
  | none =>
    refine ⟨w, [], .none asked.holds, fun reply sent => ?_⟩
    have empty : reply.get? "node" = some .null := sent "node" (by decide) (by decide)
    simp [Method.replyForms, response, Shape.fieldForms, Json.get?, empty, Schema.domNode, Shape.forms]
  | some n =>
    have steps := orderly_steps own w.host
    unfold nodeReply at few ⊢
    simp only [Option.mapM_some, Act.after_bind, Act.result_bind, Act.after_pure, Act.result_pure,
      Act.after_map, Act.result_map] at few ⊢
    have later := (steps.optionalForm (some ((ref own w.host n).result s)) ((ref own w.host n).after s)
      trivial).later
    obtain ⟨w', learns, known⟩ := ref_learns asked.holds rfl n (Nat.le_trans later few)
    have ready' : Ready d w' n := (ready n rfl).learn learns
    obtain ⟨after, result⟩ := form?_known (learns.dom_eq asked.dom) asked.wf learns.holds ready' known
    simp only [form, Act.after_bind, Act.result_bind, Act.after_pure, Act.result_pure, after, result,
      formOf_unmoved learns.unmoved, Option.map_some, Json.optional]
    refine ⟨w', [n], ⟨learns, fun _ member => List.mem_singleton.mp member ▸ ready'⟩, fun reply sent => ?_⟩
    have here : reply.get? "node" = some (formOf s w' n).toJson := sent "node" (by decide) (by decide)
    simp [Method.replyForms, response, Shape.fieldForms, Json.get?, here, forms_formOf]

theorem pageReply_describes (ready : ∀ n ∈ page.nodes, Ready d w n) (response : m.response = Schema.pageResponse) :
    Describes own d s w m (pageReply own w.host page) := by
  intro few
  have steps := orderly_steps own w.host
  have later := (steps.forms ((page.nodes.mapM (ref own w.host)).result s)
    ((page.nodes.mapM (ref own w.host)).after s) trivial).later
  obtain ⟨w', tells, result⟩ := tell asked.dom asked.wf asked.holds rfl ready (Nat.le_trans later few)
  refine ⟨w', page.nodes, tells, fun reply sent => ?_⟩
  have members : (pageReply own w.host page).result s =
      [("hasFirst", .bool page.hasFirst), ("hasLast", .bool page.hasLast), ("nodes", sheet s w' page.nodes)] := by
    rw [← result]
    rfl
  have get (key : String) (response : key ≠ "from" ∧ key ≠ "requestId") :=
    (sent key response.1 response.2).trans (by rw [members, Fields.get?_ofList])
  simp [Method.replyForms, response, Schema.pageResponse, Shape.fieldForms, Json.get?, get, Shape.forms, forms_sheet]

theorem queryReply_describes {node : Option NodeId} (under : ∀ n ∈ node, d.Under n d.root ∧ Walk.shown d .all n = true)
    (response : m.response = [("node", Schema.domNode), ("newNodes", Schema.nodes)]) :
    Describes own d s w m (queryReply own w.host node) := by
  intro few
  cases node with
  | none =>
    refine ⟨w, [], .none asked.holds, fun reply sent => ?_⟩
    have node : reply.get? "node" = none := sent "node" (by decide) (by decide)
    have path : reply.get? "newNodes" = none := sent "newNodes" (by decide) (by decide)
    simp [Method.replyForms, response, Shape.fieldForms, Json.get?, node, path]
  | some n =>
    obtain ⟨place, shown⟩ := under n rfl
    obtain ⟨w', tells, result⟩ := queryReply_tells asked.dom asked.wf asked.holds rfl place shown few
    refine ⟨w', _, tells, fun reply sent => ?_⟩
    rw [result] at sent
    have node : reply.get? "node" = some (formOf s w' n).toJson :=
      (sent "node" (by decide) (by decide)).trans (by simp [Fields.get?_ofList])
    have path : reply.get? "newNodes" = some (sheet s w' (unknown w (d.ancestors n))) :=
      (sent "newNodes" (by decide) (by decide)).trans (by simp [Fields.get?_ofList])
    simp [Method.replyForms, response, Shape.fieldForms, Json.get?, node, path, forms_formOf, forms_sheet]

theorem parents_describes (firm : Firm d w n) (sameDocument : Bool)
    (response : m.response = [("nodes", Schema.nodes)]) :
    Describes own d s w m (do
      let names ← (parentsOf d n sameDocument).mapM (ref own w.host) return [("nodes", ← forms names)]) := by
  intro few
  have wf := asked.wf
  have ready : ∀ a ∈ parentsOf d n sameDocument, Ready d w a := by
    intro a member
    have above : a ∈ d.ancestors n := by
      rw [parentsOf, Walk.visibleAncestors_eq wf firm.under] at member
      split at member
      · exact (List.takeWhile_sublist _).subset member
      · exact member
    obtain ⟨p, link, under⟩ := wf.mem_ancestors above
    exact (firm.above wf (.step link under)).ready
  have steps := orderly_steps own w.host
  have later := (steps.forms (((parentsOf d n sameDocument).mapM (ref own w.host)).result s)
    (((parentsOf d n sameDocument).mapM (ref own w.host)).after s) trivial).later
  obtain ⟨w', tells, result⟩ := tell asked.dom wf asked.holds rfl ready (Nat.le_trans later few)
  refine ⟨w', parentsOf d n sameDocument, tells, fun reply sent => ?_⟩
  have here : reply.get? "nodes" = some (sheet s w' (parentsOf d n sameDocument)) := by
    rw [← result]
    exact sent "nodes" (by decide) (by decide)
  simp [Method.replyForms, response, Shape.fieldForms, Json.get?, here, forms_sheet]

end

section

variable (wf : d.WellFormed) (firm : Firm d w n) {o : PageOptions} (filter : o.filter = .all)
  (center : ∀ c ∈ o.center, Firm d w c) (start : ∀ c ∈ o.start, Firm d w c)

include wf firm filter center start

theorem ready_children (given : NodePage.children d n o = .ok page) : ∀ x ∈ page.nodes, Ready d w x := by
  intro x member
  obtain ⟨base, place, beside⟩ := NodePage.mem_children wf given filter member
  rcases place with here | here | ⟨link, shown⟩
  · exact (center base here).beside wf beside
  · exact (start base here).beside wf beside
  · rcases beside with rfl | ⟨p, parent, parent', shown'⟩
    · exact firm.child link shown
    · have same : d.up x = some n := by
        rw [Dom.WellFormed.up_of_parent parent', ← Dom.WellFormed.up_of_parent parent, link]
      exact firm.child same shown'

theorem ready_siblings (given : NodePage.siblings d n o = .ok page) : ∀ x ∈ page.nodes, Ready d w x := by
  obtain ⟨doc, owner⟩ := wf.documentOf?_of_under_root firm.under
  rw [NodePage.siblings, Walk.visibleParent?_eq wf owner] at given
  cases link : d.up n with
  | none =>
    rw [link] at given
    cases given
    exact fun x member => List.mem_singleton.mp member ▸ firm.ready
  | some p =>
    rw [link] at given
    dsimp only at given
    split at given
    · have centered : ∀ c ∈ some n, Firm d w c := fun c member => Option.mem_some_iff.mp member ▸ firm
      exact ready_children (o := { o with center := some n }) wf (firm.above wf (.single link)) filter
        centered start given
    · exact ready_children wf (firm.above wf (.single link)) filter center start given

end

theorem ready_beside (asked : Asked s own d w packet) (firm : Firm d w n) (way : Walk.Way) :
    ∀ x ∈ ((Walk.start d (filterArgument packet) n).step? d way).map (·.current), Ready d w x := by
  intro x member
  obtain ⟨walk, step, rfl⟩ := Option.map_eq_some_iff.mp member
  have filter : filterArgument packet = .all := by simp [filterArgument, asked.all]
  rw [filter] at step
  exact firm.beside asked.wf (Walk.step?_start asked.wf step).2

/-! ### What a request comes to -/

/-- What becomes of a request that a walker or one of its lists takes on. -/
inductive Deed (own : String) (d : Dom) (s : Scene) (w : WalkerActor) (m : Method) : Act Reply → Prop
  | tells {act : Act Reply} (describes : Describes own d s w m act) : Deed own d s w m act
  | lists (nodes : List NodeId) (under : ∀ n ∈ nodes, d.Under n d.root ∧ Walk.shown d .all n = true)
      (named : m.name = "querySelectorAll") :
      Deed own d s w m (do
        let list ← Act.register "domnodelist" own (.nodeList ⟨own, nodes⟩)
        return [("list", .object [("actor", .str list), ("length", .nat nodes.length)])])
  | releases {name : String} {n : NodeId} (known : w.known.get? n = some name) (named : m.name = "releaseNode") :
      Deed own d s w m (do
        releaseNode own w.host name
        return [])
  | takes (cleanup : Bool) (named : m.name = "getMutations") :
      Deed own d s w m (do
        let records ← takeMutations own w cleanup
        return [("mutations", .arr (records.map Mutation.toJson))])
  | leaves (named : m.name = "release") : Deed own d s w m (pure [])

theorem method_named {schema : Schema} {method : String} (found : schema.method? method = some m) :
    m.name = method := by
  simpa using List.find?_some found

theorem decide_deed (asked : Asked s own d w packet) {method : String}
    (found : Schema.walker.method? method = some m) (decided : decide s own w method packet = .ok act) :
    Deed own d s w m act := by
  have named := method_named found
  have wf := asked.wf
  have inDocument (base : NodeId) (firm : Firm d w base) {text : String} {nodes : List NodeId}
      (given : select d base text = .ok nodes) : ∀ n ∈ nodes, d.Under n d.root ∧ Walk.shown d .all n = true := by
    unfold select at given
    split at given
    · cases given
      intro n member
      obtain ⟨under, shown⟩ := wf.mem_select member
      exact ⟨Relation.ReflTransGen.trans under firm.under, shown⟩
    · cases given
  unfold decide at decided
  rw [asked.dom] at decided
  split at decided
  · obtain ⟨document, given, decided⟩ := Decision.bind_ok decided
    cases decided
    cases found
    exact .tells (nodeReply_describes asked (fun n member => (asked.documentArgument given n member).ready) rfl)
  · obtain ⟨document, given, decided⟩ := Decision.bind_ok decided
    cases decided
    cases found
    refine .tells (nodeReply_describes asked (fun n member => ?_) rfl)
    obtain ⟨doc, here, element⟩ := Option.bind_eq_some_iff.mp member
    have child : n ∈ d.children doc := List.mem_of_find?_eq_some element
    obtain ⟨node, there, kind⟩ : ∃ node, d.node? n = some node ∧ node.kind = NodeKind.element := by
      have isElement := List.find?_some element
      cases there : d.node? n with
      | none => simp [there] at isElement
      | some node => exact ⟨node, rfl, by simpa [there] using isElement⟩
    exact (asked.documentArgument given doc here).child (Dom.WellFormed.up_of_parent (wf.parent_iff.mpr child))
      (Walk.shown_of_kind wf.typed there (by rw [kind]; decide))
  · obtain ⟨node, given, decided⟩ := Decision.bind_ok decided
    cases decided
    cases found
    exact .tells (parents_describes asked (asked.nodeArgument (by simp) given) _ rfl)
  · obtain ⟨node, given, decided⟩ := Decision.bind_ok decided
    obtain ⟨options, given', decided⟩ := Decision.bind_ok decided
    obtain ⟨page, given'', decided⟩ := Decision.bind_ok decided
    cases decided
    cases found
    obtain ⟨filter, center, start⟩ := asked.pageOptions given'
    exact .tells (pageReply_describes asked
      (ready_children wf (asked.nodeArgument (by simp) given) filter center start given'') rfl)
  · obtain ⟨node, given, decided⟩ := Decision.bind_ok decided
    obtain ⟨options, given', decided⟩ := Decision.bind_ok decided
    obtain ⟨page, given'', decided⟩ := Decision.bind_ok decided
    cases decided
    cases found
    obtain ⟨filter, center, start⟩ := asked.pageOptions given'
    exact .tells (pageReply_describes asked
      (ready_siblings wf (asked.nodeArgument (by simp) given) filter center start given'') rfl)
  · obtain ⟨node, given, decided⟩ := Decision.bind_ok decided
    cases decided
    cases found
    exact .tells (nodeReply_describes asked
      (ready_beside asked (asked.nodeArgument (by simp) given) .forward) rfl)
  · obtain ⟨node, given, decided⟩ := Decision.bind_ok decided
    cases decided
    cases found
    exact .tells (nodeReply_describes asked
      (ready_beside asked (asked.nodeArgument (by simp) given) .backward) rfl)
  · obtain ⟨base, given, decided⟩ := Decision.bind_ok decided
    obtain ⟨text, _, decided⟩ := Decision.bind_ok decided
    obtain ⟨nodes, given', decided⟩ := Decision.bind_ok decided
    cases decided
    cases found
    refine .tells (queryReply_describes asked (fun n member => ?_) rfl)
    exact inDocument base (asked.nodeArgument (by simp) given) given' n (List.mem_of_head? member)
  · obtain ⟨base, given, decided⟩ := Decision.bind_ok decided
    obtain ⟨text, _, decided⟩ := Decision.bind_ok decided
    obtain ⟨nodes, given', decided⟩ := Decision.bind_ok decided
    cases decided
    exact .lists nodes (inDocument base (asked.nodeArgument (by simp) given) given') named
  · obtain ⟨name, given, decided⟩ := Decision.bind_ok decided
    obtain ⟨node, live, decided⟩ := Decision.bind_ok decided
    cases decided
    exact .releases (asked.holds.lookupNode live) named
  · cases decided
    exact .takes _ named
  · cases decided
    exact .leaves named
  · cases decided

end Walker

namespace NodeList

open Walker

variable {d : Dom} {s : Scene} {own : String} {w : WalkerActor} {packet : Fields} {act : Act Reply} {m : Method}
variable {n : NodeId} {nodes : List NodeId}

theorem item_describes (asked : Asked s own d w packet) (under : d.Under n d.root ∧ Walk.shown d .all n = true)
    (response : m.response = [("node", Schema.domNode), ("newNodes", Schema.nodes)]) :
    Describes own d s w m (do
      let (path, name) ← fetch own w.host n
      let form ← Walker.form (some name) return [("node", form), ("newNodes", ← Walker.forms path)]) := by
  intro few
  have steps := orderly_steps own w.host
  simp only [Act.after_bind, Act.result_bind, Act.after_pure, Act.result_pure] at few ⊢
  have later (t : Scene) := Nat.le_trans
    (steps.optionalForm (some ((fetch own w.host n).result s).2) t trivial).later
    (steps.forms ((fetch own w.host n).result s).1 _ trivial).later
  obtain ⟨w', path, learns, known, names, ready⟩ := fetch_learns asked.dom asked.wf asked.holds rfl under.1
    under.2 (Nat.le_trans (later _) few)
  obtain ⟨after, result⟩ := form?_known (learns.dom_eq asked.dom) asked.wf learns.holds (ready n (by simp)) known
  obtain ⟨after', result'⟩ := forms_known (learns.dom_eq asked.dom) asked.wf learns.holds names
    fun p member => ready p (by simp [member])
  simp only [Walker.form, Act.after_bind, Act.result_bind, Act.after_pure, Act.result_pure, after, result, after',
    result', formOf_unmoved learns.unmoved, Option.map_some, Json.optional]
  refine ⟨w', n :: path, ⟨learns, ready⟩, fun reply sent => ?_⟩
  have node : reply.get? "node" = some (formOf s w' n).toJson :=
    (sent "node" (by decide) (by decide)).trans (by simp [Fields.get?_ofList])
  have above : reply.get? "newNodes" = some (sheet s w' path) :=
    (sent "newNodes" (by decide) (by decide)).trans (by simp [Fields.get?_ofList, sheet])
  simp [Method.replyForms, response, Shape.fieldForms, Json.get?, node, above, forms_formOf, forms_sheet]

theorem items_describes (asked : Asked s own d w packet)
    (under : ∀ n ∈ nodes, d.Under n d.root ∧ Walk.shown d .all n = true)
    (response : m.response = [("nodes", Schema.nodes), ("newNodes", Schema.nodes)]) :
    Describes own d s w m (do
      let found ← nodes.mapM (fetch own w.host)
      let list ← Walker.forms (found.map Prod.snd)
      return [("nodes", list), ("newNodes", ← Walker.forms (found.flatMap Prod.fst))]) := by
  intro few
  have steps := orderly_steps own w.host
  simp only [Act.after_bind, Act.result_bind, Act.after_pure, Act.result_pure] at few ⊢
  have later (t : Scene) := Nat.le_trans
    (steps.forms (((nodes.mapM (fetch own w.host)).result s).map Prod.snd) t trivial).later
    (steps.forms (((nodes.mapM (fetch own w.host)).result s).flatMap Prod.fst) _ trivial).later
  obtain ⟨w', path, learns, names, names', ready⟩ := mapM_fetch_learns asked.dom asked.wf asked.holds rfl under
    (Nat.le_trans (later _) few)
  obtain ⟨after, result⟩ := forms_known (learns.dom_eq asked.dom) asked.wf learns.holds names
    fun p member => ready p (List.mem_append_left _ member)
  obtain ⟨after', result'⟩ := forms_known (learns.dom_eq asked.dom) asked.wf learns.holds names'
    fun p member => ready p (List.mem_append_right _ member)
  simp only [after, result, after', result', formOf_unmoved learns.unmoved]
  refine ⟨w', nodes ++ path, ⟨learns, ready⟩, fun reply sent => ?_⟩
  have list : reply.get? "nodes" = some (sheet s w' nodes) :=
    (sent "nodes" (by decide) (by decide)).trans (by simp [Fields.get?_ofList, sheet])
  have above : reply.get? "newNodes" = some (sheet s w' path) :=
    (sent "newNodes" (by decide) (by decide)).trans (by simp [Fields.get?_ofList, sheet])
  simp [Method.replyForms, response, Shape.fieldForms, Json.get?, list, above, forms_sheet]

theorem decide_deed (asked : Asked s own d w packet) {l : NodeListActor} (mine : l.walker = own)
    (under : ∀ n ∈ l.nodes, d.Under n d.root ∧ Walk.shown d .all n = true) {method : String}
    (found : Schema.nodeList.method? method = some m) (decided : decide s l method packet = .ok act) :
    Deed own d s w m act := by
  have live : s.walker? l.walker = some w := by
    rw [mine]
    exact Scene.walker?_eq_some.mpr asked.holds.walker
  have named := method_named found
  unfold decide at decided
  rw [live, mine] at decided
  dsimp only at decided
  split at decided
  · split at decided
    · cases decided
    · rename_i node here
      cases decided
      cases found
      exact .tells (item_describes asked (under node (List.mem_of_getElem? here)) rfl)
  · cases decided
    cases found
    refine .tells (items_describes asked (fun n member => under n ?_) rfl)
    exact List.mem_of_mem_drop (List.mem_of_mem_take member)
  · cases decided
    exact .leaves named
  · cases decided

end NodeList

end RemoteInspector
