import RemoteInspector.Proofs.Serve.Moves
import RemoteInspector.Proofs.Serve.Turns
/-!
Every act of a connection comes down to moves.
-/
namespace RemoteInspector

open Registry (Named Taken)
open Relation (ReflTransGen)
open Scene (Goes)

/-! ### What moves do to the site -/

namespace Scene

variable {s t : Scene} {R : Site → Site → Prop} (refl : ∀ site, R site site)
variable (trans : ∀ {a b c}, R a b → R b c → R a c) (quiet : ∀ {a b}, a.Quiet b → R a b)
variable (unmoved : ∀ {a b}, a.Unmoved b → R a b)
variable (made : ∀ (site : Site) (id : ConnectionId) (host : String), R site (site.newDebugger id host).1)

include refl trans quiet unmoved made

theorem Move.site_rel (move : s.Move t) : R s.site t.site := by
  cases move with
  | idle alike => exact quiet alike.site
  | mark own marked => exact marked.site.symm ▸ refl _
  | extend added next extended => exact extended.site.symm ▸ refl _
  | enrol own host node _ _ _ => exact unmoved (Walker.enrol_unmoved _ _ _ _ _)
  | release name => exact unmoved (releaseOne_unmoved s name)
  | debug self c _ none =>
    unfold Evaluation.debugger
    rw [none]
    exact trans (made s.site s.conn.id c.host) (quiet (.addDebuggee _ _ _ _ _))
  | attach self host host' _ _ =>
    have hooked (site : Site) (d : DebuggerId) (content : GlobalId) : site.Unmoved
        (((site.setGlobalHook s.conn.id d (some content)).setFrameHook s.conn.id d (some ⟨s.conn.id, self⟩)).setEnabled
          s.conn.id d false) :=
      ((Site.Unmoved.setGlobalHook _ _ _ _).trans (.setFrameHook _ _ _ _)).trans (.setEnabled _ _ _ _)
    exact trans (trans (made s.site s.conn.id host) (quiet (.foldl_addDebuggee _ _ _ _ _))) (unmoved (hooked _ _ _))
  | detach self => exact unmoved (detach_unmoved s self)
  | trace self d f traces =>
    rcases traces.site with ⟨same, _⟩ | same <;> rw [same]
    · exact refl _
    · exact unmoved (.setEnabled _ _ _ _)

theorem Moves.site_rel (moves : ReflTransGen Move s t) : R s.site t.site := by
  induction moves with
  | refl => exact refl _
  | tail _ move ih => exact trans ih (move.site_rel refl trans quiet unmoved made)

end Scene

/-! ### Deeds -/

namespace Walker

variable {s : Scene}

theorem ref_goes {own host : String} (taken : s.Given → Taken s.conn.id s.conn.registry.next own)
    (hosts : s.Given → s.Hosts own host) (node : NodeId) : s.Goes ((ref own host node).after s) := by
  cases known : s.known? own node with
  | some name =>
    rw [(ref_of_known host known).2]
    exact .refl s
  | none =>
    rw [(ref_of_unknown host known).2]
    exact .move fun given => .enrol own host node known (taken given) (hosts given)

theorem form_goes (name : String) : s.Goes ((form? name).after s) := by
  simp only [form?, Act.after_bind, Act.after_get, Act.result_get]
  cases there : s.node? name with
  | none => exact .refl s
  | some actor =>
    dsimp only
    split
    · rename_i w parent live _
      refine ref_goes (fun given => given.taken (Scene.walker?_eq_some.mp live)) (fun _ _ _ _ _ _ _ => .inr ?_) _
      exact ⟨name, actor, Scene.tie?_eq_node.mpr (Scene.node?_eq_some.mp there), rfl, rfl⟩
    · exact .refl s

theorem marked_goes {own : String} {w : WalkerActor} (live : s.find? own = some (.walker w))
    {f : WalkerActor → WalkerActor} (same : (f w).host = w.host ∧ (f w).root = w.root ∧ (f w).known = w.known)
    (nodup : w.orphans.Nodup → (f w).orphans.Nodup)
    (orphans : ∀ name ∈ (f w).orphans, name ∈ w.orphans ∨ ∃ node, w.known.get? node = some name) :
    s.Goes ((Act.updateWalker own f).after s) := by
  have find := after_updateWalker s own f
  refine .move fun _ => .mark own ⟨rfl, rfl, Registry.names_update _ _, fun x other => ?_, rfl, rfl, ?_⟩
  · rw [Scene.tie?, Scene.tie?, after_updateWalker_ne other]
  · obtain ⟨host, root, known⟩ := same
    refine ⟨w.host, w.root, w.known, w.orphans, (f w).orphans, ?_, ?_, nodup, orphans⟩
    · rw [Scene.tie?, live]
      rfl
    · rw [Scene.tie?, find, live, ← host, ← root, ← known]
      simp [Actor.tie?]

theorem emptied_goes (own : String) : s.Goes ((Act.updateWalker own fun w => { w with orphans := [] }).after s) := by
  cases live : s.walker? own with
  | some w => exact marked_goes (Scene.walker?_eq_some.mp live) ⟨rfl, rfl, rfl⟩ (fun _ => .nil) nofun
  | none =>
    refine .idle (.update s own fun a found => ?_)
    cases a with
    | walker w =>
      rw [Scene.walker?_eq_some.mpr found] at live
      cases live
    | _ => rfl

end Walker

namespace Act

abbrev Going {γ : Type} (act : Act γ) : Prop := Keeps (fun _ => True) Goes act

theorem going_law : Law Going := keeps_law (fun s _ => .refl s) (fun first next => first.trans next) fun _ _ => trivial

namespace Going

theorem register {kind : String} (owner : String) {actor : Actor} (listed : kind ∈ Registry.kinds)
    (fresh : actor.Fresh) : Going (register kind owner actor) := by
  intro s _
  refine .move fun _ => .extend [⟨s.conn.registry.newName s.conn.id kind, some owner, actor⟩]
    (s.conn.registry.next + 1) ⟨rfl, rfl, rfl, rfl, Nat.le_succ _, fun e member => ?_⟩
  rw [List.mem_singleton.mp member]
  exact ⟨Registry.newName_named listed _ _, fresh⟩

theorem registerTab (id : PageId) (page : Page) : Going (Tabs.register id page) := by
  intro s _
  have elsewhere : ((Tabs.register id page).after s).conn.id = s.conn.id ∧
      ((Tabs.register id page).after s).site = s.site ∧
      ((Tabs.register id page).after s).conn.tracings = s.conn.tracings := by
    simp only [Tabs.register, Act.register, newName, registerAs, after_bind, after_get, result_get, after_set,
      after_pure, after_modify, Scene.setRegistry, Scene.setConn, and_self]
  refine .move fun _ => .extend (Tabs.added s id page) (s.conn.registry.next + 5)
    ⟨elsewhere.1, elsewhere.2.1, elsewhere.2.2, Tabs.registry_register s id page, Nat.le_add_right _ _, ?_⟩
  refine fun e member => ⟨?_, ?_⟩
  · exact Tabs.added_named s id page e member
  · simp only [Tabs.added, List.mem_cons, List.not_mem_nil, or_false] at member
    rcases member with rfl | rfl | rfl | rfl | rfl <;> simp [Actor.Fresh]

theorem registerWalker (owner host : String) : Going (Walker.register owner host) := by
  intro s _ given
  let walker : WalkerActor := { host := host, root := (s.site.dom host).root }
  let name := s.conn.registry.newName s.conn.id "domwalker"
  let t := (Act.register "domwalker" owner (.walker walker)).after s
  have made : s.Goes t := by
    refine register owner (by decide) ?_ s trivial
    exact ⟨rfl, rfl⟩
  have named : Named s.conn.id s.conn.registry.next (s.conn.registry.next + 1) name :=
    Registry.newName_named (by decide) _ _
  -- The new walker is the one found under its name, and looks into the host.
  have hosts : t.Hosts name host := by
    intro few host' root known orphans tied
    have found : t.find? name = some (.walker walker) := by
      change (Registry.add _ _).find? name = _
      rw [Registry.find?_add]
      change (s.find? name).or _ = _
      rw [given.find?_new named few, Option.none_or, if_pos rfl]
    rw [Scene.tie?_of_walker found] at tied
    cases tied
    exact .inl rfl
  have known : t.Goes ((Walker.ref name host walker.root).after t) := by
    refine Walker.ref_goes (fun _ => .inr ?_) (fun _ => hosts) _
    exact named.widen (Nat.zero_le _) (Nat.le_refl _)
  exact ((made.trans known).trans (Walker.form_goes _)) given

theorem deeds : Deeds Going where
  law := going_law
  read _ _ := .refl _
  call _ _ _ _ _ _ := .idle (.same rfl rfl rfl ((Site.Quiet.refl _).note _ trivial))
  register owner _ listed fresh _ _ := register owner listed fresh
  object owner _ := Grip.actorOf_law going_law (fun _ _ => .refl _) (register owner (by decide) trivial)
    fun _ _ _ => .idle ⟨rfl, rfl, rfl, fun _ => rfl, fun _ => .refl _, .refl _⟩
  update name _ kept s _ := .idle (.update s name fun a _ => (kept a).tie)
  registerWalker := registerWalker
  form name _ _ := Walker.form_goes name
  orphans walker _ _ := Walker.emptied_goes walker
  release name s _ := .release s name
  write _ _ _ _ _ _ := .idle (.same rfl rfl rfl (.setNodeValue _ _ _ _ _))
  clear _ _ _ := .idle (.same rfl rfl rfl ⟨.setPage _ _ _, .setPage _ _ fun _ => ⟨rfl, rfl⟩, fun _ => rfl⟩)

end Going

end Act

/-! ### Changes of a document -/

namespace Walker

/-- Only orphans are marked, and none that the walker does not know. -/
structure Marks (w w' : WalkerActor) : Prop where
  same : w'.host = w.host ∧ w'.root = w.root ∧ w'.known = w.known
  nodup : w.orphans.Nodup → w'.orphans.Nodup
  orphans : ∀ name ∈ w'.orphans, name ∈ w.orphans ∨ ∃ node, w.known.get? node = some name

namespace Marks

variable {w w' w'' : WalkerActor}

theorem refl (w : WalkerActor) : Marks w w := ⟨⟨rfl, rfl, rfl⟩, id, fun _ => .inl⟩

theorem trans (first : Marks w w') (next : Marks w' w'') : Marks w w'' where
  same := ⟨next.same.1.trans first.same.1, next.same.2.1.trans first.same.2.1, next.same.2.2.trans first.same.2.2⟩
  nodup distinct := next.nodup (first.nodup distinct)
  orphans name member := by
    rcases next.orphans name member with old | known
    · exact first.orphans name old
    · rw [first.same.2.2] at known
      exact .inr known

theorem adopt (w : WalkerActor) (name : String) : Marks w (w.adopt name) :=
  ⟨⟨rfl, rfl, rfl⟩, fun distinct => distinct.filter _, fun _ member => .inl (List.mem_filter.mp member).1⟩

theorem orphan {name : String} (known : ∃ node, w.known.get? node = some name) : Marks w (w.orphan name) where
  same := ⟨rfl, rfl, rfl⟩
  nodup distinct := by
    unfold WalkerActor.orphan
    split
    · exact distinct
    · rename_i new
      simpa [List.concat_eq_append] using distinct.concat new
  orphans x member := by
    unfold WalkerActor.orphan at member
    split at member
    · exact .inl member
    · rcases List.mem_append.mp member with old | new
      · exact .inl old
      · exact .inr (List.mem_singleton.mp new ▸ known)

theorem foldl {f : WalkerActor → String → WalkerActor} {names : List String}
    (each : ∀ w', Marks w w' → ∀ name ∈ names, Marks w' (f w' name)) : Marks w (names.foldl f w) := by
  induction names generalizing w with
  | nil => exact .refl w
  | cons name rest ih =>
    have first := each w (.refl w) name (by simp)
    exact first.trans (ih fun w' later x member => each w' (first.trans later) x (by simp [member]))

end Marks

theorem record_marks (d : Dom) (limit : Nat) (w : WalkerActor) (change : Dom.Change) :
    Marks w (record d limit w change).1 := by
  unfold record
  split
  · exact .refl w
  · cases change with
    | attributes node name space => exact .refl w
    | characterData node => exact .refl w
    | childList node added removed =>
      refine Marks.trans (.foldl fun w' marks name member => ?_) (.foldl fun w' _ name _ => .adopt w' name)
      obtain ⟨child, _, known⟩ := List.mem_filterMap.mp member
      exact .orphan ⟨child, marks.same.2.2.symm ▸ known⟩

theorem records_marks (d : Dom) (limit : Nat) (w : WalkerActor) (changes : List Dom.Change) :
    Marks w (records d limit w changes).1 := by
  induction changes generalizing w with
  | nil => exact .refl w
  | cons change rest ih => exact (record_marks d limit w change).trans (ih _)

end Walker

namespace Act.Going

theorem queue (walker : String) (f : List Mutation → List Mutation) :
    Going (Act.updateWalker walker fun w => { w with queue := f w.queue }) := by
  refine fun s _ => .idle (.update s walker fun a _ => ?_)
  cases a <;> rfl

theorem event (packet : Json) : Going (event packet) := fun s _ => .idle (.write s packet)

theorem queued (walker : String) (w : WalkerActor) (records : List Mutation) : Going (Walker.queue walker w records) :=
  Walker.queue_law going_law w (queue walker (· ++ records)) (event _)

theorem onChanges (walker : String) (changes : List Dom.Change) : Going (Walker.onChanges walker changes) := by
  refine keeps_read fun s _ => ?_
  split
  · exact .refl s
  · rename_i w live
    have marks := Walker.records_marks (s.site.dom w.host) s.site.prefs.valueSummaryLength w changes
    have marked := Walker.marked_goes (Scene.walker?_eq_some.mp live)
      (f := fun _ => (Walker.records (s.site.dom w.host) s.site.prefs.valueSummaryLength w changes).1)
      marks.same marks.nodup marks.orphans
    exact marked.trans (queued walker _ _ _ trivial)

theorem requests (console : String) (f : Table String String → Table String String) :
    Going (Act.updateConsole console fun c => { c with requests := f c.requests }) := by
  refine fun s _ => .idle (.update s console fun a _ => ?_)
  cases a <;> rfl

theorem onUpdate (console : String) (c : ConsoleActor) (id : String) (event : NetworkEvent) :
    Going (Network.onUpdate console c id event) := by
  refine keeps_read fun s _ => ?_
  dsimp only
  split
  · exact requests console (·.erase id) s trivial
  · rename_i name n found
    obtain ⟨x, _, found⟩ := Option.bind_eq_some_iff.mp found
    obtain ⟨n', live, same⟩ := Option.map_eq_some_iff.mp found
    cases same
    split
    · exact .refl s
    · refine Goes.trans (.idle (.update s name fun a there => ?_)) (.idle (.write _ _))
      rw [Scene.network?_eq_some.mp live] at there
      cases there
      rfl

theorem report (tracer type : String) {details : Site → Tracing → Site × List (String × Json)}
    (quiet : ∀ (site : Site) t, site.Quiet (details site t).1) : Going (Tracer.report tracer type details) := by
  intro s _
  have counted : s.Goes (s.setTracing tracer fun t => { t with sequence := t.sequence + 1 }) :=
    .idle (.setTracing s tracer fun _ => rfl)
  exact (counted.trans (.idle (.setSite (quiet _ _)))).trans (.idle (.write _ _))

end Act.Going

/-! ### Requests -/

namespace Console

variable {s : Scene} {self : String} {c : ConsoleActor}

theorem plain (console : String) : Plain Act.Going console where
  toGripping := Act.Going.deeds.gripping console
  update kept := Act.Going.deeds.updateConsole console kept
  clear := Act.Going.deeds.clear

theorem debugger_goes (live : s.find? self = some (.console c)) : s.Goes ((Evaluation.debugger self c).after s) := by
  cases taken : c.debugger with
  | some id =>
    unfold Evaluation.debugger
    rw [taken]
    exact .refl s
  | none => exact .move fun _ => .debug self c live taken

theorem evaluate_goes (live : s.find? self = some (.console c)) (target : EvalTarget) (bound : Option ObjectRef)
    (source : String) : s.Goes ((Evaluation.evaluate self c target bound source).after s) := by
  unfold Evaluation.evaluate
  rw [Act.after_bind]
  refine (debugger_goes live).trans ?_
  generalize (Evaluation.debugger self c).after s = t
  generalize (Evaluation.debugger self c).result s = id
  simp only [Act.after_bind, Act.after_get, Act.result_get, Act.after_site, Act.after_pure]
  refine .idle (.setSite ?_)
  exact Evaluation.run_in_quiet _ _ _ _ _ _ _ _

theorem decide_goes {method : String} {packet : Fields} {act : Act Reply} (live : s.find? self = some (.console c))
    (accepted : Console.decide s self c method packet = .ok act) : s.Goes (act.after s) := by
  rcases decide_cases (plain self) accepted with plain | ⟨rest, rfl, answering⟩ | evaluated
  · exact plain.law s trivial
  · exact (debugger_goes live).trans ((answering _).law _ trivial)
  · obtain ⟨target, bound, source, rest, rfl, answering⟩ := evaluated
    exact (evaluate_goes live _ _ _).trans ((answering s _).law _ trivial)

end Console

namespace Tracer

variable {s : Scene} {self host : String}

theorem start_goes {id : DebuggerId} (attached : (s.tracing self).debugger = some id) (given : Option String)
    (types : List TraceType) : s.Goes ((start self (s.tracing self) id given types).after s) := by
  refine .move fun _ => .trace self id (·.start given types) ⟨attached, attached, fun sound => ?_, ?_, ?_⟩
  · exact sound.start (by simp [attached]) given types
  · unfold start
    split <;> rfl
  · unfold start
    split
    · exact .inr rfl
    · rename_i active
      exact .inl ⟨rfl, (Bool.eq_false_iff.mpr active).symm⟩

theorem stop_goes {id : DebuggerId} (attached : (s.tracing self).debugger = some id) (name : String) :
    s.Goes ((stop self (s.tracing self) id name).after s) := by
  refine .move fun _ => .trace self id (·.stop name) ⟨attached, attached, fun sound => sound.stop name, ?_, ?_⟩
  · simp only [stop, Act.after_bind, Act.after_modify]
    split <;> rfl
  · simp only [stop, Act.after_bind, Act.after_modify]
    split
    · rename_i ended
      right
      rw [ended]
      rfl
    · rename_i active
      left
      refine ⟨rfl, (Bool.eq_false_iff.mpr active).trans (Bool.eq_false_iff.mpr fun inactive => active ?_).symm⟩
      change (Table.erase _ _).isEmpty = true
      rw [List.isEmpty_iff.mp inactive]
      rfl

theorem decide_goes {method : String} {packet : Fields} {act : Act Reply} (live : s.find? self = some (.trace host))
    (accepted : Tracer.decide s self host method packet = .ok act) : s.Goes (act.after s) := by
  unfold Tracer.decide at accepted
  dsimp only at accepted
  split at accepted
  · split at accepted
    · cases accepted
    · rename_i detached
      cases accepted
      exact .move fun _ => .attach self host host live (by simpa using detached)
  · cases accepted
    exact .move fun _ => .detach self
  · obtain ⟨types, _, accepted⟩ := Decision.bind_ok accepted
    split at accepted
    · cases accepted
    · rename_i id attached
      cases accepted
      exact start_goes attached _ _
  · split at accepted
    · rename_i id attached _
      split at accepted
      · cases accepted
      · cases accepted
        exact stop_goes attached _
    · cases accepted
  · cases accepted

end Tracer

theorem Act.Going.deeds_under {P : Scene → Prop} (law : Act.Law (Act.Keeps P Goes)) : Deeds (Act.Keeps P Goes) where
  law := law
  read s _ := .refl s
  call site owner ref receiver s _ := deeds.call site owner ref receiver s trivial
  register owner _ listed fresh plain apart s _ := deeds.register owner listed fresh plain apart s trivial
  object owner ref s _ := deeds.object owner ref s trivial
  update name _ kept s _ := deeds.update name kept s trivial
  registerWalker owner host s _ := deeds.registerWalker owner host s trivial
  form name s _ := deeds.form name s trivial
  orphans walker s _ := deeds.orphans walker s trivial
  release name s _ := deeds.release name s trivial
  write origin host node value s _ := deeds.write origin host node value s trivial
  clear page s _ := deeds.clear page s trivial

namespace Request

variable {s : Scene} {self method : String} {packet : Fields} {actor : Actor} {act : Act Reply}

theorem decide_goes (live : s.find? self = some actor)
    (accepted : decide s self method packet actor = .ok act) : s.Goes (act.after s) := by
  intro given
  -- The walkers for which node actors are made have their names from the start, and stay where they are.
  have walks {own host : String} (walks : actor.Walks s self own host) :
      ∃ w, s.find? own = some (.walker w) ∧ host = w.host := by
    cases actor with
    | walker w => exact ⟨w, walks.1 ▸ live, walks.2⟩
    | nodeList list =>
      obtain ⟨_, w, found, same⟩ := walks
      exact ⟨w, Scene.walker?_eq_some.mp found, same⟩
    | _ => exact walks.elim
  have law : Act.Law (Act.Keeps (ReflTransGen Scene.Move s) Goes) := by
    refine Act.keeps_law (fun t _ => .refl t) (fun first next => first.trans next) fun moves goes => ?_
    exact moves.trans (goes (Scene.Moves.given moves given)).1
  have deeds := Act.Going.deeds_under law
  have ref {own host : String} (walking : actor.Walks s self own host) (node : NodeId) :
      Act.Keeps (ReflTransGen Scene.Move s) Goes (Walker.ref own host node) := by
    obtain ⟨w, found, rfl⟩ := walks walking
    intro t moves
    have later := Scene.Moves.later moves
    have taken := given.taken found
    refine Walker.ref_goes (fun _ => later.1 ▸ taken.widen later.2) (fun _ few _ _ _ _ tied => .inl ?_) node
    obtain ⟨_, _, before⟩ := Scene.Moves.walker moves few given taken tied
    rw [Scene.tie?_of_walker found] at before
    cases before
    rfl
  cases actor with
  | console c => exact Console.decide_goes live accepted given
  | trace host => exact Tracer.decide_goes live accepted given
  | _ =>
    refine (decide_answering law (deeds.handler s self _ ref (fun w _ => ?_) nofun nofun) accepted).law s .refl given
    exact fun t _ => Act.Going.queue self (fun _ => []) t trivial

end Request

theorem Scene.lasting : Lasting Goes where
  refl := .refl
  trans := .trans
  deeds := Act.Going.deeds
  write s packet := .idle (.write s packet)
  standing _ _ kept := .idle (.same (kept _).1 (kept _).2.1 (kept _).2.2 (.refl _))
  queue := Act.Going.queue
  changes := Act.Going.onChanges
  request console _ := Act.Going.register console (by decide) trivial
  enlist console id name := Act.Going.requests console (·.insert id name)
  onUpdate := Act.Going.onUpdate
  onEnter tracer frame := Act.Going.report tracer _ fun site t => Tracer.entered_quiet site t frame
  onPop tracer completion := Act.Going.report tracer _ fun site t => Tracer.exited_quiet site t completion
  registerTab := Act.Going.registerTab
  root f s _ := .idle (.update s _ fun a _ => by cases a <;> rfl)
  decide := Request.decide_goes

/-! ### The beginning -/

namespace Serve

variable (site : Site) (id : ConnectionId) (line : Line)

theorem tie?_rooted (x : String) : (rooted site id line).tie? x = none := by
  change ((Registry.add {} ⟨Tabs.rootName, none, .root {}⟩).find? x).bind _ = none
  rw [Registry.find?_add]
  change (if Tabs.rootName = x then some _ else none).bind _ = none
  split <;> rfl

theorem rooted_given : (rooted site id line).Given := by
  intro name member
  exact .inl (List.mem_singleton.mp member)

theorem start_moves (tabs : Table TabId PageId) :
    ReflTransGen Scene.Move (rooted site id line) (start ⟨site, { id, line }⟩ tabs) :=
  (Scene.lasting.start site id line tabs (rooted_given site id line)).1

end Serve

end RemoteInspector
