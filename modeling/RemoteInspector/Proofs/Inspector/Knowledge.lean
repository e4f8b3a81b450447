import RemoteInspector.Proofs.Serve.Ownership
/-!
What a walker knows: node actors and known nodes answer to each other one to one.
-/
namespace RemoteInspector

open Registry (Named)

/-! ### Sites that stay as they are -/

/-- The documents, the preferences, the pages and the mail are as before. -/
structure Site.Unmoved (s t : Site) : Prop where
  dom : ∀ host, t.dom host = s.dom host
  prefs : t.prefs = s.prefs
  pages : t.pages = s.pages
  nextPage : t.nextPage = s.nextPage
  mail : t.mail = s.mail

namespace Site.Unmoved

variable {s t u : Site}

theorem refl (s : Site) : s.Unmoved s := ⟨fun _ => rfl, rfl, rfl, rfl, rfl⟩

theorem trans (first : s.Unmoved t) (next : t.Unmoved u) : s.Unmoved u :=
  ⟨fun host => (next.dom host).trans (first.dom host), next.prefs.trans first.prefs, next.pages.trans first.pages,
    next.nextPage.trans first.nextPage, next.mail.trans first.mail⟩

theorem setHost (s : Site) (name : String) {f : Host → Host} (dom : ∀ h, (f h).dom = h.dom) :
    s.Unmoved (s.setHost name f) := by
  refine ⟨fun host => ?_, rfl, rfl, rfl, rfl⟩
  unfold Site.dom Site.setHost Site.host
  rw [Table.get?_insert]
  by_cases same : name = host
  · subst same
    simpa using dom _
  · simp [same]

theorem observe (s : Site) (origin : ConnectionId) (host : String) (node : NodeId) (walker : String) :
    s.Unmoved (s.observe origin host node walker).1 := by
  obtain ⟨dom, prefs, pages, nextPage, mail⟩ := setHost s host (f := fun h =>
    { h with observers := h.observers.insert s.nextObserver ⟨node, origin, walker⟩ }) fun _ => rfl
  exact ⟨dom, prefs, pages, nextPage, mail⟩

theorem disconnect (s : Site) (origin : ConnectionId) (host : String) (id : ObserverId) :
    s.Unmoved (s.disconnect origin host id) := by
  obtain ⟨dom, prefs, pages, nextPage, mail⟩ := setHost s host (f := fun h => { h with observers := h.observers.erase id })
    fun _ => rfl
  exact ⟨dom, prefs, pages, nextPage, mail⟩

theorem setEnabled (s : Site) (origin : ConnectionId) (id : DebuggerId) (on : Bool) :
    s.Unmoved (s.setEnabled origin id on) :=
  ⟨fun _ => rfl, rfl, rfl, rfl, rfl⟩

theorem setFrameHook (s : Site) (origin : ConnectionId) (id : DebuggerId) (hook : Option FrameHook) :
    s.Unmoved (s.setFrameHook origin id hook) :=
  ⟨fun _ => rfl, rfl, rfl, rfl, rfl⟩

theorem setGlobalHook (s : Site) (origin : ConnectionId) (id : DebuggerId) (hook : Option GlobalId) :
    s.Unmoved (s.setGlobalHook origin id hook) :=
  ⟨fun _ => rfl, rfl, rfl, rfl, rfl⟩

theorem dropDebugger (s : Site) (origin : ConnectionId) (id : DebuggerId) : s.Unmoved (s.dropDebugger origin id) :=
  ⟨fun _ => rfl, rfl, rfl, rfl, rfl⟩

end Site.Unmoved

namespace Scene

theorem detach_unmoved (s : Scene) (name : String) : s.site.Unmoved (s.detach name).site := by
  unfold detach
  dsimp only
  split
  · exact .refl _
  · rename_i id _
    have down (site : Site) : site.Unmoved ((((site.setEnabled s.conn.id id false).setFrameHook s.conn.id id
        none).setGlobalHook s.conn.id id none).dropDebugger s.conn.id id) :=
      (((Site.Unmoved.setEnabled _ _ _ _).trans (.setFrameHook _ _ _ _)).trans (.setGlobalHook _ _ _ _)).trans
        (.dropDebugger _ _ _)
    split
    · exact down _
    · exact (Site.Unmoved.setEnabled _ _ _ _).trans (down _)

theorem destroy_unmoved (s : Scene) (name : String) (actor : Actor) : s.site.Unmoved (s.destroy name actor).site := by
  cases actor with
  | node actor =>
    simp only [destroy]
    split
    · exact Site.Unmoved.disconnect _ _ _ _
    · exact .refl _
  | console actor =>
    simp only [destroy]
    split
    · exact Site.Unmoved.dropDebugger _ _ _
    · exact .refl _
  | trace host => exact detach_unmoved s name
  | _ => exact .refl _

theorem releaseOne_unmoved (s : Scene) (name : String) : s.site.Unmoved (s.releaseOne name).site := by
  unfold releaseOne
  split
  · exact destroy_unmoved (s.setRegistry (·.remove name)) name _
  · exact .refl _

theorem release_unmoved (s : Scene) (name : String) : s.site.Unmoved (s.release name).site :=
  release_rel (R := fun s t => s.site.Unmoved t.site) (fun _ => .refl _) (fun first next => first.trans next)
    releaseOne_unmoved s name

theorem find?_newName {s : Scene} (valid : s.Valid)
    (few : s.conn.registry.next < UInt32.size) {kind : String} (listed : kind ∈ Registry.kinds) :
    s.find? (s.conn.registry.newName s.conn.id kind) = none := by
  refine Registry.find?_eq_none.mpr fun member => ?_
  have named := Registry.newName_named listed s.conn.registry s.conn.id
  rcases valid.name_given member with root | given
  · exact named.ne_root root
  · exact given.disjoint named (Nat.le_refl _) few

theorem find?_register {s : Scene} {kind : String} (owner : String) (actor : Actor)
    (fresh : s.find? (s.conn.registry.newName s.conn.id kind) = none) (x : String) :
    ((Act.register kind owner actor).after s).find? x =
      if x = s.conn.registry.newName s.conn.id kind then some actor else s.find? x := by
  change (Registry.add _ _).find? x = _
  rw [Registry.find?_add]
  change (s.find? x).or _ = _
  by_cases same : x = s.conn.registry.newName s.conn.id kind
  · subst same
    simp [fresh]
  · simp [same, Ne.symm same]

theorem known?_of_walker {s : Scene} {own : String} {w : WalkerActor} (live : s.find? own = some (.walker w)) (n : NodeId) :
    s.known? own n = w.known.get? n := by
  simp [known?, walker?, live, Actor.walker?]

end Scene

namespace Walker

/-- The walker under a name knows just the nodes of the connection's node actors. -/
structure Holds (s : Scene) (own : String) (w : WalkerActor) : Prop where
  valid : s.conn.registry.Valid s.conn.id
  walker : s.find? own = some (.walker w)
  known : ∀ {node name}, w.known.get? node = some name → ∃ o, s.find? name = some (.node ⟨w.host, own, node, o⟩)
  node : ∀ {name actor}, s.find? name = some (.node actor) →
    actor.host = w.host ∧ actor.walker = own ∧ w.known.get? actor.node = some name

variable {s t u : Scene} {own host name : String} {w w' w'' : WalkerActor} {node : NodeId} {nodes nodes' : List NodeId}

/-- The walker has got to know some nodes, and nothing else has changed. -/
structure Learns (own : String) (nodes : List NodeId) (s t : Scene) (w w' : WalkerActor) : Prop where
  silent : s.Silent t
  unmoved : s.site.Unmoved t.site
  holds : Holds t own w'
  later : s.conn.registry.next ≤ t.conn.registry.next
  rest : w' = { w with known := w'.known }
  kept : ∀ {n x}, w.known.get? n = some x → w'.known.get? n = some x
  new : ∀ {n x}, w'.known.get? n = some x →
    w.known.get? n = some x ∨ n ∈ nodes ∧ Named s.conn.id s.conn.registry.next t.conn.registry.next x
  learnt : ∀ n ∈ nodes, ∃ x, w'.known.get? n = some x
  others : ∀ {x}, x ≠ own → (∀ a, t.find? x ≠ some (.node a)) → t.find? x = s.find? x

namespace Learns

theorem refl (holds : Holds s own w) : Learns own [] s s w w where
  silent := .refl s
  unmoved := .refl _
  holds := holds
  later := Nat.le_refl _
  rest := rfl
  kept := id
  new := .inl
  learnt := by simp
  others _ _ := rfl

theorem trans (first : Learns own nodes s t w w') (next : Learns own nodes' t u w' w'') :
    Learns own (nodes ++ nodes') s u w w'' where
  silent := first.silent.trans next.silent
  unmoved := first.unmoved.trans next.unmoved
  holds := next.holds
  later := Nat.le_trans first.later next.later
  rest := by rw [next.rest, first.rest]
  kept known := next.kept (first.kept known)
  new known := by
    rcases next.new known with before | ⟨member, named⟩
    · rcases first.new before with old | ⟨member, named⟩
      · exact .inl old
      · exact .inr ⟨List.mem_append_left _ member, named.widen (Nat.le_refl _) next.later⟩
    · rw [first.silent.id] at named
      exact .inr ⟨List.mem_append_right _ member, named.widen first.later (Nat.le_refl _)⟩
  learnt n member := by
    rcases List.mem_append.mp member with before | now
    · obtain ⟨x, known⟩ := first.learnt n before
      exact ⟨x, next.kept known⟩
    · exact next.learnt n now
  others := by
    intro x other plain
    have later := next.others other plain
    rw [later, first.others other fun a found => plain a (later.trans found)]

end Learns

/-! ### The actor of a node -/

theorem Holds.known? (holds : Holds s own w) (node : NodeId) : s.known? own node = w.known.get? node :=
  Scene.known?_of_walker holds.walker node

theorem Holds.node? (holds : Holds s own w) (known : w.known.get? node = some name) :
    ∃ o, s.node? name = some ⟨w.host, own, node, o⟩ := by
  obtain ⟨o, found⟩ := holds.known known
  exact ⟨o, Scene.node?_eq_some.mpr found⟩

theorem Holds.known_inj (holds : Holds s own w) {n n' : NodeId} (known : w.known.get? n = some name)
    (known' : w.known.get? n' = some name) : n = n' := by
  obtain ⟨o, found⟩ := holds.known known
  obtain ⟨o', found'⟩ := holds.known known'
  cases found.symm.trans found'
  rfl

theorem Holds.fresh (holds : Holds s own w) (few : s.conn.registry.next < UInt32.size) (kind : String)
    (listed : kind ∈ Registry.kinds) : s.find? (s.conn.registry.newName s.conn.id kind) = none :=
  Scene.find?_newName holds.valid few listed

def watch (s : Scene) (host : String) (node : NodeId) : Option ObserverId :=
  if (s.site.dom host).isDocument node then some s.site.nextObserver else none

/-- The scene with an actor more for a node, which is watched if it is a document. -/
def enrol (s : Scene) (own host : String) (node : NodeId) (name : String) : Scene :=
  let actor := Actor.node ⟨host, own, node, watch s host node⟩
  let s := s.setSite fun _ =>
    if (s.site.dom host).isDocument node then (s.site.observe s.conn.id host node own).1 else s.site
  let s := s.setRegistry fun r => Registry.add { r with next := r.next + 1 } ⟨name, some own, actor⟩
  s.update own fun
    | .walker w => .walker { w with known := w.known.insert node name }
    | other => other

theorem ref_of_known (host : String) (known : s.known? own node = some name) :
    (ref own host node).result s = name ∧ (ref own host node).after s = s := by
  unfold ref
  simp [known]

theorem ref_of_unknown (host : String) (unknown : s.known? own node = none) :
    (ref own host node).result s = s.conn.registry.newName s.conn.id "domnode" ∧
      (ref own host node).after s = enrol s own host node (s.conn.registry.newName s.conn.id "domnode") := by
  unfold ref enrol watch
  by_cases document : (s.site.dom host).isDocument node
  · simp [unknown, document]
    exact ⟨rfl, rfl⟩
  · simp [unknown, document]
    exact ⟨rfl, rfl⟩

theorem find?_enrol (host : String) (node : NodeId) (walker : s.find? own = some (.walker w))
    (fresh : s.find? name = none) (x : String) : (enrol s own host node name).find? x =
      if x = own then some (.walker { w with known := w.known.insert node name })
      else if x = name then some (.node ⟨host, own, node, watch s host node⟩)
      else s.find? x := by
  have other : name ≠ own := fun same => by
    rw [← same, fresh] at walker
    cases walker
  unfold enrol
  rw [Scene.find?_update]
  change ((Registry.add _ _).find? x).map _ = _
  rw [Registry.find?_add]
  change ((s.find? x).or _).map _ = _
  by_cases self : x = own
  · subst self
    simp [walker]
  · by_cases new : x = name
    · subst new
      simp [fresh, self]
    · simp [self, new, Ne.symm new]

theorem enrol_unmoved (s : Scene) (own host : String) (node : NodeId) (name : String) :
    s.site.Unmoved (enrol s own host node name).site := by
  unfold enrol
  by_cases document : (s.site.dom host).isDocument node
  · simp only [document, if_true]
    exact Site.Unmoved.observe _ _ _ _ _
  · simp only [document]
    exact .refl _

theorem orderly_steps (own host : String) : Walking.Steps (Act.Orderly 4 fun r => Registry.Above r 4 own) own host :=
  Act.Orderly.walking (Registry.stable_above 4 own) (Nat.le_refl 4) (fun _ => id) host

theorem Holds.above (holds : Holds s own w) : Registry.Above s.conn.registry 4 own :=
  ⟨3, by decide, Registry.has_of_find? holds.walker⟩

theorem Holds.ne_own (holds : Holds s own w) (known : w.known.get? node = some name) : name ≠ own := by
  rintro rfl
  obtain ⟨o, found⟩ := holds.known known
  cases found.symm.trans holds.walker

theorem Holds.enrol (holds : Holds s own w) (unknown : w.known.get? node = none) (fresh : s.find? name = none)
    (valid : (enrol s own w.host node name).conn.registry.Valid s.conn.id) :
    Holds (enrol s own w.host node name) own { w with known := w.known.insert node name } := by
  have find := find?_enrol w.host node holds.walker fresh
  have other : name ≠ own := by
    rintro rfl
    cases fresh.symm.trans holds.walker
  refine ⟨valid, by simp [find], ?_, ?_⟩
  · intro n x known
    simp only [Table.get?_insert] at known
    split at known
    · subst node
      cases known
      exact ⟨watch s w.host n, by simp [find, other]⟩
    · obtain ⟨o, found⟩ := holds.known known
      have old : x ≠ name := by
        rintro rfl
        cases fresh.symm.trans found
      exact ⟨o, by simp [find, holds.ne_own known, old, found]⟩
  · intro x actor found
    rw [find] at found
    split at found
    · cases found
    · split at found
      · subst x
        cases found
        exact ⟨rfl, rfl, by simp [Table.get?_insert]⟩
      · obtain ⟨host, walker, known⟩ := holds.node found
        refine ⟨host, walker, ?_⟩
        have old : node ≠ actor.node := by
          rintro rfl
          cases unknown.symm.trans known
        simpa [Table.get?_insert, old] using known

theorem ref_learns (holds : Holds s own w) (here : w.host = host) (node : NodeId)
    (few : ((ref own host node).after s).Few) :
    ∃ w', Learns own [node] s ((ref own host node).after s) w w' ∧
      w'.known.get? node = some ((ref own host node).result s) := by
  subst here
  have orderly := (orderly_steps own w.host).ref node s trivial
  have valid := (orderly.follows few holds.valid holds.above).valid
  cases known : w.known.get? node with
  | some name =>
    obtain ⟨result, after⟩ := ref_of_known w.host ((holds.known? node).trans known)
    rw [after, result]
    exact ⟨w, ⟨.refl s, .refl _, holds, Nat.le_refl _, rfl, id, .inl,
      fun n member => ⟨name, by simp_all⟩, fun _ _ => rfl⟩, known⟩
  | none =>
    obtain ⟨result, after⟩ := ref_of_unknown w.host ((holds.known? node).trans known)
    have named := Registry.newName_named (by decide : "domnode" ∈ Registry.kinds) s.conn.registry s.conn.id
    rw [result]
    rw [after] at few valid orderly ⊢
    have fresh := holds.fresh few "domnode" (by decide)
    generalize s.conn.registry.newName s.conn.id "domnode" = name at *
    have find := find?_enrol w.host node holds.walker fresh
    refine ⟨{ w with known := w.known.insert node name }, ?_, by simp [Table.get?_insert]⟩
    constructor
    case silent => exact ⟨rfl, rfl, rfl, rfl⟩
    case unmoved => exact enrol_unmoved _ _ _ _ _
    case holds => exact holds.enrol known fresh valid
    case later => exact orderly.later
    case rest => rfl
    case kept =>
      intro n x old
      have other : node ≠ n := by
        rintro rfl
        cases known.symm.trans old
      simpa [Table.get?_insert, other] using old
    case new =>
      intro n x now
      simp only [Table.get?_insert] at now
      split at now
      · subst node
        cases now
        exact .inr ⟨by simp, named⟩
      · exact .inl now
    case learnt => simp [Table.get?_insert]
    case others =>
      intro x other plain
      have old : x ≠ name := by
        rintro rfl
        exact plain ⟨w.host, own, node, watch s w.host node⟩ (by simp [find, other])
      simp [find, other, old]

/-- The names by which a walker knows some nodes, which it does know. -/
abbrev Names (w : WalkerActor) : List NodeId → List String → Prop :=
  List.Forall₂ fun n x => w.known.get? n = some x

theorem Learns.names (learns : Learns own nodes s t w w') {ns : List NodeId} {xs : List String}
    (names : Names w ns xs) : Names w' ns xs :=
  names.imp fun _ _ => learns.kept

theorem Learns.host_eq (learns : Learns own nodes s t w w') : w'.host = w.host := by
  rw [learns.rest]

theorem mapM_ref_learns (holds : Holds s own w) (here : w.host = host) (nodes : List NodeId)
    (few : ((nodes.mapM (ref own host)).after s).Few) :
    ∃ w', Learns own nodes s ((nodes.mapM (ref own host)).after s) w w' ∧
      Names w' nodes ((nodes.mapM (ref own host)).result s) := by
  have steps := orderly_steps own host
  induction nodes generalizing s w with
  | nil => exact ⟨w, .refl holds, .nil⟩
  | cons node rest ih =>
    simp only [List.mapM_cons, Act.after_bind, Act.result_bind, Act.after_pure, Act.result_pure] at few ⊢
    have later := (steps.law.mapM steps.ref rest ((ref own host node).after s) trivial).later
    obtain ⟨w₁, first, known⟩ := ref_learns holds here node (Nat.le_trans later few)
    obtain ⟨w₂, next, names⟩ := ih first.holds (first.host_eq.trans here) few
    exact ⟨w₂, first.trans next, .cons (next.kept known) names⟩

def unknown (w : WalkerActor) (nodes : List NodeId) : List NodeId :=
  nodes.takeWhile fun n => (w.known.get? n).isNone

theorem Learns.unknown_eq (learns : Learns own [node] s t w w') (other : node ∉ nodes) :
    unknown w' nodes = unknown w nodes := by
  unfold unknown
  induction nodes with
  | nil => rfl
  | cons n rest ih =>
    obtain ⟨ne, other⟩ := not_or.mp (fun h => other (List.mem_cons.mpr h))
    have same : (w'.known.get? n).isNone = (w.known.get? n).isNone := by
      cases old : w.known.get? n with
      | some x => rw [learns.kept old]
      | none =>
        cases now : w'.known.get? n with
        | none => rfl
        | some x =>
          rcases learns.new now with before | ⟨member, _⟩
          · cases old.symm.trans before
          · exact absurd (List.mem_singleton.mp member).symm ne
    rw [List.takeWhile_cons, List.takeWhile_cons, same, ih other]

theorem refUntilKnown_learns (holds : Holds s own w) (here : w.host = host) (nodup : nodes.Nodup)
    (few : ((refUntilKnown own host nodes).after s).Few) :
    ∃ w', Learns own (unknown w nodes) s ((refUntilKnown own host nodes).after s) w w' ∧
      Names w' (unknown w nodes) ((refUntilKnown own host nodes).result s) := by
  have steps := orderly_steps own host
  induction nodes generalizing s w with
  | nil => exact ⟨w, .refl holds, .nil⟩
  | cons node rest ih =>
    obtain ⟨other, nodup⟩ := List.nodup_cons.mp nodup
    unfold refUntilKnown at few ⊢
    simp only [Act.after_bind, Act.result_bind, Act.result_get, Act.after_get, holds.known?] at few ⊢
    cases known : w.known.get? node with
    | some name =>
      simp only [unknown, List.takeWhile_cons, known, Option.isNone_some, Option.isSome_some]
      exact ⟨w, .refl holds, .nil⟩
    | none =>
      simp only [known, Option.isSome_none, Bool.false_eq_true, if_false, Act.after_bind, Act.result_bind,
        Act.after_pure, Act.result_pure] at few ⊢
      have later := (steps.refUntilKnown rest ((ref own host node).after s) trivial).later
      obtain ⟨w₁, first, learnt⟩ := ref_learns holds here node (Nat.le_trans later few)
      obtain ⟨w₂, next, names⟩ := ih first.holds (first.host_eq.trans here) nodup few
      rw [first.unknown_eq other] at next names
      have here : unknown w (node :: rest) = node :: unknown w rest := by simp [unknown, known]
      rw [here]
      exact ⟨w₂, first.trans next, .cons (next.kept learnt) names⟩

end Walker

end RemoteInspector
