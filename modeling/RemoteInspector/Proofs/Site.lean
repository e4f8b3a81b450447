import RemoteInspector.Proofs.Dom.Links
import RemoteInspector.Proofs.Grip.Laws
import RemoteInspector.Trace.Tracer
import RemoteInspector.Console.Evaluation
/-!
Sites on which nothing is opened and nothing is closed: looking into scripts, evaluating and setting values.
-/
namespace RemoteInspector

/-- A call by which nothing is opened or closed on a host. -/
def HostCall.Passing : HostCall → Prop
  | .observe _ _ | .disconnect _ | .newDebugger _ | .dropDebugger _ => False
  | _ => True

/-- A list has grown at its end, by members of one kind. -/
def Grows {α : Type} (P : α → Prop) (old new : List α) : Prop := ∃ more, new = old ++ more ∧ ∀ a ∈ more, P a

namespace Grows

variable {α : Type} {P Q : α → Prop} {old new later past : List α} {a : α}

theorem trans (first : Grows P old new) (next : Grows P new later) : Grows P old later := by
  obtain ⟨early, rfl, kind⟩ := first
  obtain ⟨late, rfl, kind'⟩ := next
  exact ⟨early ++ late, List.append_assoc .., fun a member => (List.mem_append.mp member).elim (kind a) (kind' a)⟩

theorem imp (grows : Grows P old new) (weaker : ∀ a, P a → Q a) : Grows Q old new :=
  Exists.imp (fun _ more => ⟨more.1, fun a member => weaker a (more.2 a member)⟩) grows

theorem one (holds : P a) : Grows P old (old ++ [a]) := ⟨[a], rfl, fun _ member => List.mem_singleton.mp member ▸ holds⟩

theorem cases (grows : Grows P old new) (member : a ∈ past ++ new) : a ∈ past ++ old ∨ P a := by
  obtain ⟨more, rfl, kind⟩ := grows
  rw [← List.append_assoc] at member
  exact (List.mem_append.mp member).imp_right (kind a)

theorem mono (grows : Grows P old new) (member : a ∈ past ++ old) : a ∈ past ++ new := by
  obtain ⟨more, rfl, _⟩ := grows
  rw [← List.append_assoc]
  exact List.mem_append_left _ member

end Grows

namespace Site

def hooks (s : Site) : Table DebuggerId (Option FrameHook) := s.debuggers.map fun p => (p.1, p.2.frameHook)

def enabled? (s : Site) (d : DebuggerId) : Option Bool := (s.debuggers.get? d).map (·.enabled)

/-- Nothing has been opened or closed. -/
structure Stays (s t : Site) : Prop where
  observers : ∀ host, (t.host host).observers = (s.host host).observers
  nextObserver : t.nextObserver = s.nextObserver
  hooks : t.hooks = s.hooks
  enabled : ∀ d, t.enabled? d = s.enabled? d
  nextDebugger : t.nextDebugger = s.nextDebugger
  log : ∃ calls, t.log = s.log ++ calls ∧ ∀ e ∈ calls, e.call.Passing

/-- Besides, no node has become a document or ceased to be one, and the frames that scripts are in are the same. -/
structure Rests (s t : Site) : Prop extends s.Stays t where
  documents : ∀ host node, (t.dom host).isDocument node = (s.dom host).isDocument node
  frames : ∀ host, (t.engine host).stack = (s.engine host).stack

/-- What clients are told of a page: its tab, its title and its address. -/
def shown? (s : Site) (page : PageId) : Option (TabId × PageInfo) :=
  (s.page? page).map fun p => (p.tab, p.info)

/-- Clients are told the same of every page, and no mail has come but about changes of documents. -/
structure Still (s t : Site) : Prop where
  pages : ∀ page, t.shown? page = s.shown? page
  nextPage : t.nextPage = s.nextPage
  mail : ∃ letters, t.mail = s.mail ++ letters ∧ ∀ l ∈ letters, ∃ walker changes, l.2 = .changes walker changes

/-- A site that rests and is still, with trees that differ in the values of nodes at most. -/
structure Quiet (s t : Site) : Prop extends s.Rests t, s.Still t where
  outlines : ∀ host, (t.dom host).outline = (s.dom host).outline

theorem host_setHost (s : Site) (name other : String) (f : Host → Host) :
    (s.setHost name f).host other = if name = other then f (s.host name) else s.host other := by
  unfold setHost host
  rw [Table.get?_insert]
  by_cases same : name = other <;> simp [same]

theorem stack_setHost (s : Site) (name : String) {f : Host → Host}
    (stack : (f (s.host name)).engine.stack = (s.engine name).stack) (other : String) :
    ((s.setHost name f).engine other).stack = (s.engine other).stack := by
  rw [engine, host_setHost]
  split
  · rename_i same
    rw [stack, same]
  · rfl

theorem hooks_setDebugger (s : Site) (id : DebuggerId) {f : Debugger → Debugger}
    (hook : ∀ d, (f d).frameHook = d.frameHook) : (s.setDebugger id f).hooks = s.hooks := by
  change (s.debuggers.modify id f).map _ = s.debuggers.map _
  induction s.debuggers with
  | nil => rfl
  | cons p rest ih =>
    unfold Table.modify
    split
    · simp [hook]
    · rw [List.map_cons, ih, List.map_cons]

theorem enabled?_setDebugger (s : Site) (id d : DebuggerId) (f : Debugger → Debugger) :
    (s.setDebugger id f).enabled? d =
      if id = d then (s.debuggers.get? d).map fun debugger => (f debugger).enabled else s.enabled? d := by
  rw [enabled?, setDebugger, Table.get?_modify]
  split
  · rw [Option.map_map]
    rfl
  · rfl

/-- A relation that holds where one edit is made and where word of changes is sent holds for a batch of edits. -/
theorem edits_rel {R : Site → Site → Prop} {host : String} (refl : ∀ s, R s s) (trans : ∀ {s t u}, R s t → R t u → R s u)
    (edit : ∀ s e, R s (s.edit host e).1) (post : ∀ s id walker changes, R s (s.post id (.changes walker changes)))
    (s : Site) (edits : List Dom.Edit) : R s (s.edits host edits) := by
  have edited (found : List (ObserverId × Observer × Dom.Change)) :
      R s (edits.foldl (fun p e => ((p.1.edit host e).1, p.2 ++ (p.1.edit host e).2)) (s, found)).1 := by
    induction edits generalizing s found with
    | nil => exact refl s
    | cons e rest ih => exact trans (edit s e) (ih _ _)
  have changed := edited []
  unfold Site.edits
  generalize edits.foldl _ (s, []) = after at changed ⊢
  obtain ⟨site, found⟩ := after
  refine trans changed ?_
  dsimp only
  clear changed
  generalize ((found.map (·.1)).eraseDups).mergeSort _ = ids
  induction ids generalizing site with
  | nil => exact refl site
  | cons id rest ih =>
    rw [List.foldl_cons]
    refine trans ?_ (ih _)
    split
    · exact post site _ _ _
    · exact refl site

namespace Stays

variable {s t u : Site}

theorem refl (s : Site) : s.Stays s :=
  ⟨fun _ => rfl, rfl, rfl, fun _ => rfl, rfl, [], (List.append_nil _).symm, nofun⟩

theorem trans (first : s.Stays t) (next : t.Stays u) : s.Stays u where
  observers host := (next.observers host).trans (first.observers host)
  nextObserver := next.nextObserver.trans first.nextObserver
  hooks := next.hooks.trans first.hooks
  enabled d := (next.enabled d).trans (first.enabled d)
  nextDebugger := next.nextDebugger.trans first.nextDebugger
  log := Grows.trans first.log next.log

theorem elsewhere (hosts : t.hosts = s.hosts) (nextObserver : t.nextObserver = s.nextObserver)
    (debuggers : t.debuggers = s.debuggers) (nextDebugger : t.nextDebugger = s.nextDebugger)
    (log : t.log = s.log) : s.Stays t where
  observers host := by rw [Site.host, Site.host, hosts]
  nextObserver := nextObserver
  hooks := by rw [Site.hooks, Site.hooks, debuggers]
  enabled d := by rw [enabled?, enabled?, debuggers]
  nextDebugger := nextDebugger
  log := ⟨[], by rw [log, List.append_nil], nofun⟩

theorem setHost (s : Site) (name : String) {f : Host → Host}
    (observers : (f (s.host name)).observers = (s.host name).observers) : s.Stays (s.setHost name f) where
  observers host := by
    rw [host_setHost]
    split
    · rename_i same
      rw [observers, same]
    · rfl
  nextObserver := rfl
  hooks := rfl
  enabled _ := rfl
  nextDebugger := rfl
  log := ⟨[], (List.append_nil _).symm, nofun⟩

theorem setDebugger (s : Site) (id : DebuggerId) {f : Debugger → Debugger}
    (same : ∀ d, (f d).frameHook = d.frameHook ∧ (f d).enabled = d.enabled) : s.Stays (s.setDebugger id f) where
  observers _ := rfl
  nextObserver := rfl
  hooks := hooks_setDebugger s id fun d => (same d).1
  enabled d := by
    rw [enabled?_setDebugger]
    split
    · cases found : s.debuggers.get? d with
      | none => simp [enabled?, found]
      | some debugger => simp [enabled?, found, (same debugger).2]
    · rfl
  nextDebugger := rfl
  log := ⟨[], (List.append_nil _).symm, nofun⟩

end Stays

namespace Rests

variable {s t u : Site}

theorem elsewhere (hosts : t.hosts = s.hosts) (nextObserver : t.nextObserver = s.nextObserver)
    (debuggers : t.debuggers = s.debuggers) (nextDebugger : t.nextDebugger = s.nextDebugger)
    (log : t.log = s.log) : s.Rests t where
  toStays := .elsewhere hosts nextObserver debuggers nextDebugger log
  documents host _ := by rw [Site.dom, Site.dom, Site.host, Site.host, hosts]
  frames host := by rw [Site.engine, Site.engine, Site.host, Site.host, hosts]

theorem refl (s : Site) : s.Rests s := elsewhere rfl rfl rfl rfl rfl

theorem trans (first : s.Rests t) (next : t.Rests u) : s.Rests u where
  toStays := first.toStays.trans next.toStays
  documents host node := (next.documents host node).trans (first.documents host node)
  frames host := (next.frames host).trans (first.frames host)

theorem setPage (s : Site) (id : PageId) (f : Page → Page) : s.Rests (s.setPage id f) :=
  elsewhere rfl rfl rfl rfl rfl

theorem post (s : Site) (connection : ConnectionId) (event : Event) : s.Rests (s.post connection event) :=
  elsewhere rfl rfl rfl rfl rfl

end Rests

namespace Still

variable {s t u : Site}

theorem elsewhere (pages : t.pages = s.pages) (nextPage : t.nextPage = s.nextPage) (mail : t.mail = s.mail) :
    s.Still t where
  pages _ := by rw [shown?, shown?, page?, page?, pages]
  nextPage := nextPage
  mail := ⟨[], by rw [mail, List.append_nil], nofun⟩

theorem refl (s : Site) : s.Still s := elsewhere rfl rfl rfl

theorem trans (first : s.Still t) (next : t.Still u) : s.Still u where
  pages page := (next.pages page).trans (first.pages page)
  nextPage := next.nextPage.trans first.nextPage
  mail := Grows.trans first.mail next.mail

theorem setPage (s : Site) (id : PageId) {f : Page → Page} (kept : ∀ p, (f p).tab = p.tab ∧ (f p).info = p.info) :
    s.Still (s.setPage id f) where
  pages page := by
    rw [shown?, shown?, page?, page?, Site.setPage, Table.get?_modify]
    split
    · rw [Option.map_map]
      refine congrArg (Option.map · _) (funext fun p => ?_)
      exact Prod.ext (kept p).1 (kept p).2
    · rfl
  nextPage := rfl
  mail := ⟨[], (List.append_nil _).symm, nofun⟩

theorem setEngine (s : Site) (name : String) (f : Engine → Engine) : s.Still (s.setEngine name f) :=
  elsewhere rfl rfl rfl

theorem changes (s : Site) (connection : ConnectionId) (walker : String) (changes : List Dom.Change) :
    s.Still (s.post connection (.changes walker changes)) :=
  ⟨fun _ => rfl, rfl, Grows.one ⟨walker, changes, rfl⟩⟩

end Still

namespace Quiet

variable {s t u : Site}

theorem refl (s : Site) : s.Quiet s := ⟨.refl s, .refl s, fun _ => rfl⟩

theorem trans (first : s.Quiet t) (next : t.Quiet u) : s.Quiet u :=
  ⟨first.toRests.trans next.toRests, first.toStill.trans next.toStill,
    fun host => (next.outlines host).trans (first.outlines host)⟩

theorem note (first : s.Quiet t) (origin : Option ConnectionId) {call : HostCall} (passing : call.Passing) :
    s.Quiet (t.note origin call) :=
  first.trans
    { observers := fun _ => rfl
      nextObserver := rfl
      hooks := rfl
      enabled := fun _ => rfl
      nextDebugger := rfl
      log := Grows.one passing
      documents := fun _ _ => rfl
      frames := fun _ => rfl
      toStill := .elsewhere rfl rfl rfl
      outlines := fun _ => rfl }

theorem setHost (s : Site) (name : String) {f : Host → Host}
    (observers : (f (s.host name)).observers = (s.host name).observers)
    (outline : (f (s.host name)).dom.outline = (s.dom name).outline)
    (stack : (f (s.host name)).engine.stack = (s.engine name).stack) : s.Quiet (s.setHost name f) := by
  have outlines (host : String) : ((s.setHost name f).dom host).outline = (s.dom host).outline := by
    rw [Site.dom, host_setHost]
    split
    · rename_i same
      rw [outline, same]
    · rfl
  exact
    { Stays.setHost s name observers with
      documents := fun host => Dom.isDocument_of_outline (outlines host)
      frames := stack_setHost s name stack
      toStill := .elsewhere rfl rfl rfl
      outlines }

theorem setEngine (s : Site) (name : String) {f : Engine → Engine}
    (stack : (f (s.engine name)).stack = (s.engine name).stack) : s.Quiet (s.setEngine name f) :=
  setHost s name rfl rfl stack

theorem setDebugger (s : Site) (id : DebuggerId) {f : Debugger → Debugger}
    (same : ∀ d, (f d).frameHook = d.frameHook ∧ (f d).enabled = d.enabled) (origin : Option ConnectionId)
    {call : HostCall} (passing : call.Passing) : s.Quiet ((s.setDebugger id f).note origin call) :=
  note ⟨⟨.setDebugger s id same, fun _ _ => rfl, fun _ => rfl⟩, .elsewhere rfl rfl rfl, fun _ => rfl⟩ origin passing

theorem addDebuggee (s : Site) (origin : ConnectionId) (host : String) (id : DebuggerId) (global : GlobalId) :
    s.Quiet (s.addDebuggee origin host id global) := by
  unfold Site.addDebuggee
  split
  · exact (refl s).note _ trivial
  · refine setDebugger s id (fun _ => ?_) _ ?_
    · exact ⟨rfl, rfl⟩
    · trivial

theorem foldl_addDebuggee (s : Site) (origin : ConnectionId) (host : String) (id : DebuggerId)
    (globals : List GlobalId) : s.Quiet (globals.foldl (fun site g => site.addDebuggee origin host id g) s) := by
  induction globals generalizing s with
  | nil => exact .refl s
  | cons g rest ih => exact (addDebuggee s origin host id g).trans (ih _)

theorem removeDebuggee (s : Site) (origin : ConnectionId) (id : DebuggerId) (global : GlobalId) :
    s.Quiet (s.removeDebuggee origin id global) := by
  refine setDebugger s id (fun _ => ?_) _ ?_
  · exact ⟨rfl, rfl⟩
  · trivial

theorem setGlobalHook (s : Site) (origin : ConnectionId) (id : DebuggerId) (hook : Option GlobalId) :
    s.Quiet (s.setGlobalHook origin id hook) := by
  refine setDebugger s id (fun _ => ?_) _ ?_
  · exact ⟨rfl, rfl⟩
  · trivial

theorem makeArray (s : Site) (host : String) (values : List Value) : s.Quiet (s.makeArray host values).1 :=
  setEngine s host (f := fun _ => ((s.engine host).makeArray values).1) rfl

theorem announce (s : Site) (host : String) (change : Dom.Change) : s.Quiet (s.announce host change) := by
  unfold Site.announce
  generalize s.interested host change = interested
  induction interested generalizing s with
  | nil => exact .refl s
  | cons observer rest ih => exact trans ⟨.post s _ _, .changes s _ _ _, fun _ => rfl⟩ (ih _)

theorem outline_setValue {d d' : Dom} {n : NodeId} {value : String} (changed : d.setValue? n value = some d') :
    d'.outline = d.outline := by
  obtain ⟨found, _, changed⟩ := Option.bind_eq_some_iff.mp changed
  split at changed
  · cases changed
    exact Dom.outline_update (fun _ => by rfl) d n
  · cases changed

theorem setNodeValue (s : Site) (origin : ConnectionId) (host : String) (node : NodeId) (value : String) :
    s.Quiet (s.setNodeValue origin host node value) := by
  unfold Site.setNodeValue
  split
  · exact (refl s).note _ trivial
  · rename_i changed
    exact ((setHost s host rfl (outline_setValue changed) rfl).note _ (by trivial)).trans (.announce _ _ _)

end Quiet

end Site

/-! ### Evaluations -/

namespace Evaluation

theorem callHelper_quiet (host : String) (r : Run) (arguments : List Value) (helper : Helper) :
    r.site.Quiet (callHelper host r arguments helper).1.site := by
  cases helper with
  | query =>
    simp only [callHelper]
    split <;> exact .refl _
  | queryAll | keys | values => exact .makeArray _ _ _
  | clear | help | inspect => exact .refl _

mutual

theorem value_quiet (host : String) (b : Bindings) (r : Run) (e : Expr) : r.site.Quiet (value host b r e).1.site := by
  cases e with
  | const v => exact .refl _
  | receiver => exact .refl _
  | bound name => exact .refl _
  | call name arguments =>
    have before := values_quiet host b r arguments
    unfold value
    dsimp only
    split
    · exact before.trans (callHelper_quiet host _ _ _)
    · exact before

theorem values_quiet (host : String) (b : Bindings) (r : Run) (es : List Expr) :
    r.site.Quiet (values host b r es).1.site := by
  cases es with
  | nil => exact .refl _
  | cons e rest => exact (value_quiet host b r e).trans (values_quiet host b _ rest)

end

theorem run_quiet (site : Site) (origin : ConnectionId) (host : String) (id : DebuggerId) (target : EvalTarget)
    (b : Bindings) (source : String) : site.Quiet (run site origin host id target b source).1.site := by
  have noted : site.Quiet (site.note (some origin) (.eval id target b.keys source)) :=
    (Site.Quiet.refl site).note _ trivial
  unfold run
  dsimp only
  generalize Engine.rule _ target source = rule
  have before := noted.trans (values_quiet host b { site := site.note (some origin) (.eval id target b.keys source) }
    rule.1)
  cases rule.2 with
  | returned e | threw e | yielded e => exact before.trans (value_quiet host b _ e)
  | terminated => exact before

theorem run_in_quiet (foreign : Option GlobalId) (site : Site) (origin : ConnectionId) (host : String)
    (id : DebuggerId) (target : EvalTarget) (b : Bindings) (source : String) :
    let r := (run (foreign.elim site (site.addDebuggee origin host id)) origin host id target b source).1
    site.Quiet (foreign.elim r.site (r.site.removeDebuggee origin id)) := by
  cases foreign with
  | none => exact run_quiet site origin host id target b source
  | some g =>
    exact ((Site.Quiet.addDebuggee site origin host id g).trans (run_quiet _ origin host id target b source)).trans
      (.removeDebuggee _ origin id g)

end Evaluation

/-! ### Frames -/

namespace Pool

/-- A step of filling a pool that opens and closes nothing. -/
def Quiet {γ : Type} (act : StateM Pooling γ) : Prop :=
  ∀ p : Pooling, p.site.Quiet (act.run p : Id _).2.site

namespace Quiet

variable {γ δ : Type}

theorem pure (a : γ) : Quiet (Pure.pure a) := fun p => .refl p.site

theorem bind {x : StateM Pooling γ} {f : γ → StateM Pooling δ} (first : Quiet x)
    (next : ∀ a, Quiet (f a)) : Quiet (x >>= f) :=
  fun p => (first p).trans (next _ _)

theorem get : Quiet (get : StateM Pooling Pooling) := fun p => .refl p.site

theorem fill (f : Pool → Pool) : Quiet (modify fun p : Pooling => { p with pool := f p.pool }) :=
  fun p => .refl p.site

end Quiet

theorem gripperWith_obeys {limits : StringLimits} {reach : Nat} {objectGrip : ObjectRef → StateM Pooling Json}
    (each : ∀ ref, Quiet (objectGrip ref)) : (gripperWith limits reach objectGrip).Obeys Quiet where
  pure := .pure
  bind := .bind
  object _ := .bind .get fun _ => .pure _
  call _ _ p := (Site.Quiet.refl p.site).note none trivial
  objectGrip := each
  longStringGrip _ := .pure _

theorem objectGrip_quiet (limits : StringLimits) (reach fuel : Nat) (ref : ObjectRef) :
    Quiet (objectGrip limits reach fuel ref) := by
  induction fuel generalizing ref with
  | zero =>
    unfold objectGrip
    refine .bind .get fun p => ?_
    dsimp only
    split
    · exact .pure _
    · exact .bind (.fill (·.reserve ref.id)) fun _ => .pure _
  | succ fuel ih =>
    unfold objectGrip
    refine .bind .get fun p => ?_
    dsimp only
    split
    · exact .pure _
    · exact .bind (.fill (·.reserve ref.id)) fun _ => .bind ((gripperWith_obeys ih).describe ref) fun description =>
        .bind (.fill fun pool => { pool with descriptors := pool.descriptors.set _ description }) fun _ => .pure _

theorem gripAll_quiet (site : Site) (values : List Value) : site.Quiet (gripAll site values).1 :=
  let obeys := gripperWith_obeys (objectGrip_quiet (StringLimits.ofPrefs site.prefs) _ (site.objectCount + 2))
  obeys.mapM obeys.value values { site := site }

end Pool

namespace Tracer

theorem entered_quiet (site : Site) (t : Tracing) (f : LiveFrame) : site.Quiet (entered site t f).1 := by
  unfold entered pooledArguments
  dsimp only
  split
  · split
    · exact Pool.gripAll_quiet site _
    · exact .refl site
  · exact .refl site

theorem exited_quiet (site : Site) (t : Tracing) (completion : Completion Value) :
    site.Quiet (exited site t completion).1 := by
  unfold exited
  dsimp only
  split
  · split
    · exact Pool.gripAll_quiet site [_]
    · exact .refl site
  · exact .refl site

end Tracer

end RemoteInspector
