import RemoteInspector.Proofs.Serve.Holdings
/-!
What each move opens, closes and switches.
-/
namespace RemoteInspector

open Registry (Named Taken)
open Relation (ReflTransGen)

namespace Scene

variable {x host name self : String} {d : DebuggerId} {r : Option Bool}

variable {s t : Scene} {past : List LogEntry}

theorem watches_iff {k : ObserverId} {o : Observer} (id : t.conn.id = s.conn.id)
    (nodes : ∀ actor, t.tie? x = some (.node actor) ↔ s.tie? x = some (.node actor)) :
    t.Watches x host k o ↔ s.Watches x host k o := by
  unfold Watches
  simp only [nodes, id]

section

variable (consoles : t.tie? x = some (.console (some d)) ↔ s.tie? x = some (.console (some d)))

include consoles

theorem debugs_iff (same : (s.tracing x).Same (t.tracing x)) : t.Debugs x d r ↔ s.Debugs x d r := by
  rw [Debugs, Debugs, consoles, same.debugger, same.active]

theorem debugs_of_tracings (same : t.conn.tracings = s.conn.tracings) : t.Debugs x d r ↔ s.Debugs x d r :=
  debugs_iff consoles (by rw [tracing_congr same]; exact .refl _)

end

theorem Extended.tie?_console {added : List Registry.Entry} {next : Nat} (extended : s.Extended t added next)
    (tied : t.tie? x = some (.console (some d))) : s.tie? x = some (.console (some d)) := by
  rcases extended.tie? x with same | ⟨_, _, fresh, isFresh, found⟩
  · exact same.symm.trans tied
  · obtain ⟨c, live, taken⟩ := tie?_eq_console.mp tied
    rw [found] at live
    cases live
    rw [show c.debugger = none from isFresh] at taken
    cases taken

theorem enrol_effect {own : String} (node : NodeId) (fresh : s.find? name = none) (other : own ≠ name) :
    s.Effect (Walker.enrol s own host node name) := by
  have nodes (x : String) (actor : NodeActor) : (Walker.enrol s own host node name).tie? x = some (.node actor) ↔
      x = name ∧ Actor.Tie.node actor = .node ⟨host, own, node, Walker.watch s host node⟩ ∨
        s.tie? x = some (.node actor) := plain_enrol host node fresh other trivial
  have debugs (x : String) (d : DebuggerId) (r : Option Bool) :
      (Walker.enrol s own host node name).Debugs x d r ↔ s.Debugs x d r := by
    refine debugs_of_tracings ?_ rfl
    rw [plain_enrol host node fresh other (by trivial)]
    simp
  by_cases document : (s.site.dom host).isDocument node
  · refine .observe name host own node (fun x h k o => ?_) debugs ?_
    · unfold Watches
      simp only [nodes, Walker.watch, document, if_true]
      constructor
      · rintro ⟨actor, ⟨rfl, same⟩ | old, watched, there, rfl⟩
        · cases same
          cases watched
          exact .inr ⟨rfl, there.symm, rfl, rfl⟩
        · exact .inl ⟨actor, old, watched, there, rfl⟩
      · rintro (⟨actor, old, rest⟩ | ⟨rfl, rfl, rfl, rfl⟩)
        · exact ⟨actor, .inr old, rest⟩
        · exact ⟨_, .inl ⟨rfl, rfl⟩, rfl, rfl, rfl⟩
    · simp only [Walker.enrol, setSite, setRegistry, setConn, update, document, if_true]
  · refine .rest (fun x h k o => ?_) debugs ?_
    · unfold Watches
      simp only [nodes, Walker.watch, document]
      constructor
      · rintro ⟨actor, ⟨rfl, same⟩ | old, watched, there, rfl⟩
        · cases same
          cases watched
        · exact ⟨actor, old, watched, there, rfl⟩
      · rintro ⟨actor, old, rest⟩
        exact ⟨actor, .inr old, rest⟩
    · have site : (Walker.enrol s own host node name).site = s.site := by
        simp only [Walker.enrol, setSite, setRegistry, setConn, update, document]
        rfl
      rw [site]
      exact .refl _

/-! Actors give back what they hold when they leave. -/

theorem tracings_releaseOne (other : ∀ host, s.find? name ≠ some (.trace host)) :
    (s.releaseOne name).conn.tracings = s.conn.tracings := by
  unfold releaseOne
  cases found : s.find? name with
  | none => rfl
  | some a =>
    cases a with
    | trace host => exact absurd found (other host)
    | node actor =>
      simp only [destroy]
      split <;> rfl
    | console c =>
      simp only [destroy]
      split <;> rfl
    | _ => rfl

theorem watches_releaseOne (s : Scene) (name : String) {k : ObserverId} {o : Observer} :
    (s.releaseOne name).Watches x host k o ↔ x ≠ name ∧ s.Watches x host k o := by
  have nodes (actor : NodeActor) : (s.releaseOne name).tie? x = some (.node actor) ↔
      x ≠ name ∧ s.tie? x = some (.node actor) := plain_releaseOne s name trivial
  unfold Watches
  simp only [nodes, (Silent.releaseOne s name).id, and_assoc, exists_and_left]

theorem debugs_releaseOne (other : ∀ host, s.find? name ≠ some (.trace host)) : (s.releaseOne name).Debugs x d r ↔
      (x ≠ name ∧ s.tie? x = some (.console (some d))) ∧ r = none ∨
        (s.tracing x).debugger = some d ∧ r = some !(s.tracing x).active.isEmpty := by
  rw [Debugs, plain_releaseOne s name (by trivial), tracing_congr (tracings_releaseOne other)]

theorem watches_releaseOther (nodes : ∀ actor, s.tie? name ≠ some (.node actor)) {k : ObserverId} {o : Observer} :
    (s.releaseOne name).Watches x host k o ↔ s.Watches x host k o := by
  rw [watches_releaseOne]
  refine and_iff_right_of_imp ?_
  rintro ⟨actor, tied, _⟩ rfl
  exact nodes actor tied

theorem debugs_releaseOther (consoles : ∀ d, s.tie? name ≠ some (.console (some d)))
    (other : ∀ host, s.find? name ≠ some (.trace host)) : (s.releaseOne name).Debugs x d r ↔ s.Debugs x d r := by
  rw [debugs_releaseOne other, Debugs]
  refine or_congr_left (and_congr_left' (and_iff_right_of_imp ?_))
  rintro console rfl
  exact consoles d console

theorem releaseIdle_effect (nodes : ∀ actor, s.tie? name ≠ some (.node actor))
    (consoles : ∀ d, s.tie? name ≠ some (.console (some d))) (other : ∀ host, s.find? name ≠ some (.trace host))
    (site : (s.releaseOne name).site = s.site) : s.Effect (s.releaseOne name) := by
  refine .rest (fun _ _ _ _ => watches_releaseOther nodes) (fun _ _ _ => debugs_releaseOther consoles other) ?_
  rw [site]
  exact .refl _

theorem releaseNode_effect {actor : NodeActor} (found : s.find? name = some (.node actor))
    (watching : s.Watching past) : s.Effect (s.releaseOne name) := by
  have tied : s.tie? name = some (.node actor) := tie?_eq_node.mpr found
  have debugs (x : String) (d : DebuggerId) (r : Option Bool) : (s.releaseOne name).Debugs x d r ↔ s.Debugs x d r :=
    debugs_releaseOther (by simp [tied]) (by simp [found])
  cases observer : actor.observer with
  | none =>
    refine .rest (fun x h k o => ?_) debugs ?_
    · rw [watches_releaseOne]
      refine and_iff_right_of_imp ?_
      rintro ⟨actor', tied', watched, _⟩ rfl
      rw [tied] at tied'
      cases tied'
      rw [observer] at watched
      cases watched
    · have site : (s.releaseOne name).site = s.site := by
        simp only [releaseOne, found, destroy, observer]
        rfl
      rw [site]
      exact .refl _
  | some k =>
    have watches : s.Watches name actor.host k ⟨actor.node, s.conn.id, actor.walker⟩ :=
      ⟨actor, tied, observer, rfl, rfl⟩
    refine .disconnect name actor.host k _ watches (fun x h k' o' => ?_) debugs ?_
    · rw [watches_releaseOne]
      constructor
      · rintro ⟨other, old⟩
        refine ⟨old, ?_⟩
        rintro rfl
        exact other (watching.alone old watches)
      · rintro ⟨old, other⟩
        refine ⟨?_, old⟩
        rintro rfl
        obtain ⟨actor', tied', watched, _⟩ := old
        rw [tied] at tied'
        cases tied'
        rw [observer] at watched
        exact other (Option.some.inj watched).symm
    · simp only [releaseOne, found, destroy, observer]
      rfl

theorem releaseConsole_effect {c : ConsoleActor} (found : s.find? name = some (.console c))
    (debugging : s.Debugging past) (traced : s.Traced) : s.Effect (s.releaseOne name) := by
  have tied : s.tie? name = some (.console c.debugger) := tie?_eq_console.mpr ⟨c, found, rfl⟩
  have watches (x h : String) (k : ObserverId) (o : Observer) :
      (s.releaseOne name).Watches x h k o ↔ s.Watches x h k o := watches_releaseOther (by simp [tied])
  cases held : c.debugger with
  | none =>
    refine releaseIdle_effect (by simp [tied]) (by simp [tied, held]) (by simp [found]) ?_
    simp only [releaseOne, found, destroy, held]
    rfl
  | some d =>
    rw [held] at tied
    have own : s.Debugs name d none := .inl ⟨tied, rfl⟩
    have site : (s.releaseOne name).site = s.site.dropDebugger s.conn.id d := by
      simp only [releaseOne, found, destroy, held]
      rfl
    refine .drop name d none own watches (fun x d' r => ?_) (site ▸ Site.sets_dropDebugger ..)
      (site ▸ List.mem_append_right _ (List.mem_singleton_self _))
    · rw [debugs_releaseOne (by simp [found])]
      constructor
      · rintro (⟨⟨other, console⟩, idle⟩ | tracing)
        · refine ⟨.inl ⟨console, idle⟩, ?_⟩
          rintro rfl
          exact other (debugging.sole (.inl ⟨console, rfl⟩) own)
        · refine ⟨.inr tracing, ?_⟩
          rintro rfl
          have tracer := traced x _ tracing.1
          rw [debugging.sole (.inr ⟨tracing.1, rfl⟩) own, tied] at tracer
          cases tracer
      · rintro ⟨⟨console, idle⟩ | tracing, other⟩
        · refine .inl ⟨⟨?_, console⟩, idle⟩
          rintro rfl
          rw [tied] at console
          cases console
          exact other rfl
        · exact .inr tracing

/-! Tracers are detached when they leave, and on request. -/

theorem detach_detached (none : (s.tracing name).debugger = none) : s.detach name = s := by
  unfold detach
  dsimp only
  rw [none]

theorem tracing_detach (s : Scene) (name x : String) : (s.detach name).tracing x =
    if x = name ∧ (s.tracing name).debugger ≠ none then (s.tracing x).detach else s.tracing x := by
  cases held : (s.tracing name).debugger with
  | none =>
    rw [detach_detached held]
    simp
  | some d =>
    have down (u : Scene) (same : u.conn.tracings = s.conn.tracings) (f : Site → Site) :
        ((u.setSite f).setTracing name Tracing.detach).tracing x =
          if x = name then (s.tracing x).detach else s.tracing x := by
      rw [tracing_setTracing, ← tracing_congr same]
      rfl
    simp only [ne_eq, reduceCtorEq, not_false_eq_true, and_true]
    unfold detach
    dsimp only
    rw [held]
    dsimp only
    split
    · exact down s rfl _
    · exact down (s.setSite _) rfl _

theorem debugger_detach (s : Scene) (name x : String) :
    ((s.detach name).tracing x).debugger = if x = name then none else (s.tracing x).debugger := by
  rw [tracing_detach]
  by_cases same : x = name
  · subst same
    cases held : (s.tracing x).debugger with
    | none => simp [held]
    | some d => simp [Tracing.detach]
  · simp [same]

theorem sets_detach (held : (s.tracing name).debugger = some d) :
    s.site.Sets s.conn.id (.dropDebugger d) d none none (s.detach name).site ∧
      ⟨some s.conn.id, .dropDebugger d⟩ ∈ (s.detach name).site.log := by
  have noted (site : Site) : ⟨some s.conn.id, .dropDebugger d⟩ ∈ (site.dropDebugger s.conn.id d).log :=
    List.mem_append_right _ (List.mem_singleton_self _)
  have down (site : Site) : site.Sets s.conn.id (.dropDebugger d) d none none
      ((((site.setEnabled s.conn.id d false).setFrameHook s.conn.id d none).setGlobalHook s.conn.id d
        none).dropDebugger s.conn.id d) :=
    (((Site.sets_setEnabled _ _ _).trans (Site.sets_setFrameHook _ _ _)).trans
      (Site.Quiet.setGlobalHook _ _ _ _).sets).trans (Site.sets_dropDebugger _ _ _)
  unfold detach
  dsimp only
  rw [held]
  dsimp only
  split
  · exact ⟨down s.site, noted _⟩
  · exact ⟨(Site.sets_setEnabled _ _ _).trans (down _), noted _⟩

theorem debugs_detach (held : (s.tracing name).debugger = some d) (debugging : s.Debugging past) (traced : s.Traced)
    (x : String) (d' : DebuggerId) (r : Option Bool) :
    s.tie? x = some (.console (some d')) ∧ r = none ∨ ((s.detach name).tracing x).debugger = some d' ∧
        r = some !((s.detach name).tracing x).active.isEmpty ↔ s.Debugs x d' r ∧ d' ≠ d := by
  have own : s.Debugs name d (some !(s.tracing name).active.isEmpty) := .inr ⟨held, rfl⟩
  have console_ne (console : s.tie? x = some (.console (some d'))) : d' ≠ d := by
    rintro rfl
    have tracer := traced name _ held
    rw [debugging.sole (.inl ⟨console, rfl⟩) own, tracer] at console
    cases console
  by_cases same : x = name
  · subst same
    rw [debugger_detach, if_pos rfl, Debugs, held]
    constructor
    · rintro (⟨console, idle⟩ | ⟨gone, _⟩)
      · exact ⟨.inl ⟨console, idle⟩, console_ne console⟩
      · cases gone
    · rintro ⟨console | ⟨session, _⟩, other⟩
      · exact .inl console
      · exact absurd (Option.some.inj session).symm other
  · rw [tracing_detach, if_neg fun both => same both.1]
    refine (and_iff_left_of_imp ?_).symm
    rintro (⟨console, _⟩ | ⟨session, _⟩)
    · exact console_ne console
    · rintro rfl
      exact same (debugging.sole (.inr ⟨session, rfl⟩) own)

theorem detach_effect (name : String) (debugging : s.Debugging past) (traced : s.Traced) :
    s.Effect (s.detach name) := by
  cases held : (s.tracing name).debugger with
  | none =>
    rw [detach_detached held]
    exact .rest (fun _ _ _ _ => .rfl) (fun _ _ _ => .rfl) (.refl _)
  | some d =>
    have ties (x : String) : (s.detach name).tie? x = s.tie? x := by rw [tie?, find?_detach, tie?]
    obtain ⟨sets, noted⟩ := sets_detach held
    refine .drop name d _ (.inr ⟨held, rfl⟩) (fun x h k o => ?_) (fun x d' r => ?_) sets noted
    · exact watches_iff (Silent.detach s name).id fun actor => by rw [ties]
    · rw [Debugs, ties]
      exact debugs_detach held debugging traced x d' r

theorem releaseTrace_effect (found : s.find? name = some (.trace host)) (debugging : s.Debugging past)
    (traced : s.Traced) : s.Effect (s.releaseOne name) := by
  have tied : s.tie? name = some .trace := tie?_eq_trace.mpr ⟨host, found⟩
  have released : s.releaseOne name = (s.setRegistry (·.remove name)).detach name := by
    rw [releaseOne, found]
    rfl
  have watches (x h : String) (k : ObserverId) (o : Observer) :
      (s.releaseOne name).Watches x h k o ↔ s.Watches x h k o := watches_releaseOther (by simp [tied])
  have consoles (x : String) (d : DebuggerId) : (s.releaseOne name).tie? x = some (.console (some d)) ↔
      s.tie? x = some (.console (some d)) := by
    rw [plain_releaseOne s name (by trivial)]
    refine and_iff_right_of_imp ?_
    rintro console rfl
    rw [tied] at console
    cases console
  -- Whether the actor is still listed makes no difference to what detaching does.
  have sessions (x : String) : (s.releaseOne name).tracing x = (s.detach name).tracing x := by
    rw [released, tracing_detach, tracing_detach]
    rfl
  cases held : (s.tracing name).debugger with
  | none =>
    refine .rest watches (fun x d r => ?_) ?_
    · rw [Debugs, consoles, sessions, detach_detached held]
      rfl
    · have still : ((s.setRegistry (·.remove name)).tracing name).debugger = none := held
      rw [released, detach_detached still]
      exact .refl _
  | some d =>
    obtain ⟨sets, noted⟩ := sets_detach (s := s.setRegistry (·.remove name)) held
    rw [← released] at sets noted
    refine .drop name d _ (.inr ⟨held, rfl⟩) watches (fun x d' r => ?_) sets noted
    rw [Debugs, consoles, sessions]
    exact debugs_detach held debugging traced x d' r

theorem releaseOne_effect (name : String) (watching : s.Watching past) (debugging : s.Debugging past)
    (traced : s.Traced) : s.Effect (s.releaseOne name) := by
  cases found : s.find? name with
  | none =>
    rw [releaseOne_absent found]
    exact .rest (fun _ _ _ _ => .rfl) (fun _ _ _ => .rfl) (.refl _)
  | some a =>
    cases a with
    | node actor => exact releaseNode_effect found watching
    | console c => exact releaseConsole_effect found debugging traced
    | trace host => exact releaseTrace_effect found debugging traced
    | _ =>
      refine releaseIdle_effect (by simp [tie?, found, Actor.tie?]) (by simp [tie?, found, Actor.tie?]) (by simp [found]) ?_
      simp only [releaseOne, found, destroy]
      rfl

/-! Consoles and tracers take debuggers. -/

theorem debugger_effect {c : ConsoleActor} (live : s.find? self = some (.console c)) (none : c.debugger = none) :
    s.Effect ((Evaluation.debugger self c).after s) := by
  have ties := tie?_debugger live none
  have tied : s.tie? self = some (.console Option.none) := tie?_eq_console.mpr ⟨c, live, none⟩
  obtain ⟨f, scene⟩ : ∃ f, (Evaluation.debugger self c).after s =
      (s.setSite fun _ => (s.site.newDebugger s.conn.id c.host).1.addDebuggee s.conn.id c.host s.site.nextDebugger
        ((s.site.newDebugger s.conn.id c.host).1.engine c.host).content).update self f := by
    unfold Evaluation.debugger
    rw [none]
    exact ⟨_, rfl⟩
  refine .make self Option.none Option.none nofun nofun (fun x h k o => ?_) (fun x d r => ?_) ?_
  · refine watches_iff (by rw [scene]; rfl) fun actor => ?_
    rw [ties]
    by_cases same : x = self
    · simp [same, tied]
    · simp [same]
  · have sessions : (((Evaluation.debugger self c).after s).tracing x) = s.tracing x := by
      rw [scene]
      rfl
    rw [Debugs, Debugs, ties, sessions]
    by_cases same : x = self
    · simp [same, tied, or_comm, eq_comm]
    · simp [same]
  · rw [scene]
    exact (Site.makes_newDebugger _ _ _).rests (Site.Quiet.addDebuggee _ _ _ _ _).toRests

theorem tracing_attach (s : Scene) (self host x : String) : ((Tracer.attach self host).after s).tracing x =
    if x = self then { s.tracing x with debugger := some s.site.nextDebugger } else s.tracing x :=
  tracing_setTracing s self (fun t => { t with debugger := some s.site.nextDebugger }) x

theorem attach_effect (host : String) (none : (s.tracing self).debugger = none) (sound : (s.tracing self).Sound) :
    s.Effect ((Tracer.attach self host).after s) := by
  refine .make self (some false) (some ⟨s.conn.id, self⟩) (by simp) ?_ (fun x h k o => ?_) (fun x d r => ?_) ?_
  · intro hook same
    exact ⟨(Option.some.inj same).symm, rfl⟩
  · exact watches_iff rfl fun _ => .rfl
  · rw [Debugs, tracing_attach]
    change s.tie? x = _ ∧ _ ∨ _ ↔ _
    by_cases same : x = self
    · simp [same, Debugs, none, sound.detached none, eq_comm]
    · simp [same, Debugs]
  · let made := Site.makes_newDebugger s.site s.conn.id host
    exact (((made.rests (Site.Quiet.foldl_addDebuggee _ _ _ _ _).toRests).rests
      (Site.Quiet.setGlobalHook _ _ _ _).toRests).setFrameHook _).disable

theorem traces_effect {f : Tracing → Tracing} (traces : s.Traces t self d f) (debugging : s.Debugging past)
    (traced : s.Traced) : s.Effect t := by
  have ties := tie?_congr traces.registry
  have watches (x h : String) (k : ObserverId) (o : Observer) : t.Watches x h k o ↔ s.Watches x h k o :=
    watches_iff traces.id fun actor => by rw [ties]
  have own : s.Debugs self d (some !(s.tracing self).active.isEmpty) := .inr ⟨traces.attached, rfl⟩
  rcases traces.site with ⟨site, same⟩ | site
  · refine .rest watches (fun x d' r => ?_) (by rw [site]; exact .refl _)
    rw [Debugs, ties, traces.tracing, Debugs]
    by_cases here : x = self
    · rw [if_pos here, here, traces.kept, traces.attached, same]
    · rw [if_neg here]
  · refine .switch self d _ _ own watches (fun x d' r => ?_) site
    rw [Debugs, ties, traces.tracing]
    by_cases here : x = self
    · subst here
      rw [if_pos rfl, traces.kept, Debugs, traces.attached, traced x d traces.attached]
      simp only [Option.some.injEq, reduceCtorEq, false_and, false_or, true_and]
      constructor
      · rintro ⟨rfl, runs⟩
        exact .inr ⟨rfl, runs⟩
      · rintro (⟨⟨same, _⟩, other⟩ | ⟨rfl, runs⟩)
        · exact absurd same.symm other
        · exact ⟨rfl, runs⟩
    · rw [if_neg here, ← Debugs]
      simp only [here, false_and, or_false]
      refine (and_iff_left_of_imp ?_).symm
      rintro held rfl
      exact here (debugging.sole held own)

/-! ### Moves -/

theorem Move.effect (move : s.Move t) (few : t.Few) (holding : s.Holding past) : s.Effect t := by
  cases move with
  | idle alike =>
    refine .rest (fun x h k o => ?_) (fun x d r => ?_) alike.site.toRests
    · exact watches_iff alike.id fun actor => by rw [alike.ties]
    · exact debugs_iff (by rw [alike.ties]) (alike.tracings x)
  | mark own marked =>
    obtain ⟨host, root, known, orphans, orphans', before, after, _⟩ := marked.marks
    refine .rest (fun x h k o => ?_) (fun x d r => ?_) ?_
    · refine watches_iff marked.id fun actor => ?_
      by_cases self : x = own
      · simp [self, before, after]
      · rw [marked.others x self]
    · refine debugs_of_tracings ?_ marked.tracings
      by_cases self : x = own
      · simp [self, before, after]
      · rw [marked.others x self]
    · rw [marked.site]
      exact .refl _
  | extend added next extended =>
    refine .rest (fun x h k o => ?_) (fun x d r => ?_) ?_
    · exact watches_iff extended.id fun actor => ⟨extended.tie?_node, extended.tie?_of_old⟩
    · exact debugs_of_tracings ⟨extended.tie?_console, extended.tie?_of_old⟩ extended.tracings
    · rw [extended.site]
      exact .refl _
  | enrol own host node unknown taken hosts =>
    have named := s.named_domnode
    exact enrol_effect node (holding.given.find?_new named few) (taken.ne_new named few)
  | release name => exact releaseOne_effect name holding.toWatching holding.toDebugging holding.traced
  | debug self c live none => exact debugger_effect live none
  | attach self host host' live none => exact attach_effect host none (holding.tracings self)
  | detach self => exact detach_effect self holding.toDebugging holding.traced
  | trace self d f traces => exact traces_effect traces holding.toDebugging holding.traced

theorem Move.traced (move : s.Move t) (few : t.Few) (given : s.Given) (traced : s.Traced) : t.Traced := by
  intro x d held
  cases move with
  | idle alike =>
    rw [(alike.tracings x).debugger] at held
    rw [alike.ties]
    exact traced x d held
  | mark own marked =>
    rw [tracing_congr marked.tracings] at held
    have tracer := traced x d held
    rw [marked.others]
    · exact tracer
    · rintro rfl
      obtain ⟨_, _, _, _, _, walker, _⟩ := marked.marks
      rw [walker] at tracer
      cases tracer
  | extend added next extended =>
    rw [tracing_congr extended.tracings] at held
    exact extended.tie?_of_old (traced x d held)
  | enrol own host node unknown taken hosts =>
    have named := s.named_domnode
    rw [plain_enrol host node (given.find?_new named few) (taken.ne_new named few) (by trivial)]
    exact .inr (traced x d held)
  | release name =>
    rw [plain_releaseOne s name (by trivial)]
    by_cases trace : ∃ host, s.find? name = some (.trace host)
    · obtain ⟨host, found⟩ := trace
      have released : s.releaseOne name = (s.setRegistry (·.remove name)).detach name := by
        rw [releaseOne, found]
        rfl
      rw [released, debugger_detach] at held
      split at held
      · cases held
      · rename_i other
        exact ⟨other, traced x d held⟩
    · rw [tracing_congr (tracings_releaseOne (not_exists.mp trace))] at held
      refine ⟨?_, traced x d held⟩
      rintro rfl
      exact trace (tie?_eq_trace.mp (traced x d held))
  | debug self c live none =>
    have same : ((Evaluation.debugger self c).after s).tracing x = s.tracing x := by
      unfold Evaluation.debugger
      split <;> rfl
    rw [same] at held
    have tracer := traced x d held
    rw [tie?_debugger live none, if_neg]
    · exact tracer
    · rintro rfl
      obtain ⟨host, found⟩ := tie?_eq_trace.mp tracer
      rw [live] at found
      cases found
  | attach self host host' live none =>
    change s.tie? x = some .trace
    by_cases same : x = self
    · rw [same]
      exact tie?_eq_trace.mpr ⟨host', live⟩
    · rw [tracing_attach, if_neg same] at held
      exact traced x d held
  | detach self =>
    rw [tie?, find?_detach]
    rw [debugger_detach] at held
    split at held
    · cases held
    · exact traced x d held
  | trace self d' f traces =>
    rw [tie?_congr traces.registry]
    rw [traces.tracing] at held
    split at held
    · rename_i same
      rw [same]
      exact traced self d' traces.attached
    · exact traced x d held

theorem sound_detach (sound : ∀ x, (s.tracing x).Sound) (name x : String) : ((s.detach name).tracing x).Sound := by
  rw [tracing_detach]
  split
  · exact (sound x).detach
  · exact sound x

theorem Move.tracings (move : s.Move t) (sound : ∀ x, (s.tracing x).Sound) (x : String) : (t.tracing x).Sound := by
  cases move with
  | idle alike => exact (sound x).same (alike.tracings x)
  | mark own marked => exact tracing_congr marked.tracings x ▸ sound x
  | extend added next extended => exact tracing_congr extended.tracings x ▸ sound x
  | enrol own host node unknown taken hosts => exact sound x
  | release name =>
    by_cases trace : ∃ host, s.find? name = some (.trace host)
    · obtain ⟨host, found⟩ := trace
      rw [releaseOne, found]
      exact sound_detach (s := s.setRegistry (·.remove name)) sound name x
    · exact tracing_congr (tracings_releaseOne (not_exists.mp trace)) x ▸ sound x
  | debug self c live none =>
    have same : ((Evaluation.debugger self c).after s).tracing x = s.tracing x := by
      unfold Evaluation.debugger
      split <;> rfl
    exact same ▸ sound x
  | attach self host host' live none =>
    rw [tracing_attach]
    split
    · exact (sound x).attach _
    · exact sound x
  | detach self => exact sound_detach sound self x
  | trace self d f traces =>
    rw [traces.tracing]
    split
    · rename_i same
      exact same ▸ traces.sound (sound self)
    · exact sound x

theorem Move.holding (move : s.Move t) (few : t.Few) (tidy : s.site.Tidy past)
    (holding : s.Holding past) : t.Holding past := by
  have effect := move.effect few holding
  have id := move.later.1
  exact ⟨effect.watching id tidy holding.toWatching, effect.debugging id tidy holding.toDebugging,
    move.given holding.given, move.traced few holding.given holding.traced, move.tracings holding.tracings⟩

/-- What has become of the site and of the holdings on it while one connection moved. -/
structure Upheld (past : List LogEntry) (s t : Scene) : Prop where
  tidy : t.site.Tidy past
  holding : t.Holding past
  others : ∀ c : Connection, c.id ≠ s.conn.id → Holding past ⟨s.site, c⟩ → Holding past ⟨t.site, c⟩

theorem Moves.upheld (moves : ReflTransGen Move s t) (few : t.Few)
    (tidy : s.site.Tidy past) (holding : s.Holding past) : Upheld past s t := by
  induction moves with
  | refl => exact ⟨tidy, holding, fun _ _ => id⟩
  | @tail t u moves move ih =>
    have before := ih (Nat.le_trans move.later.2 few)
    have change := (move.effect few before.holding).change before.holding.toWatching before.holding.toDebugging
    refine ⟨before.tidy.change change, move.holding few before.tidy before.holding, fun c other held => ?_⟩
    refine (before.others c other held).spared (change.spares before.tidy ?_)
    rw [(Moves.later moves).1]
    exact other

/-! ### Documents -/

/-- Node actors that have come since are those of documents exactly if they watch. -/
structure Referred (s t : Scene) : Prop where
  documents : ∀ host node, (t.site.dom host).isDocument node = (s.site.dom host).isDocument node
  nodes : ∀ name actor, t.tie? name = some (.node actor) → s.tie? name = some (.node actor) ∨
    Named s.conn.id s.conn.registry.next t.conn.registry.next name ∧
      actor.observer.isSome = (s.site.dom actor.host).isDocument actor.node

theorem Move.referred (move : s.Move t) (few : t.Few) (holding : s.Holding past) : s.Referred t := by
  have change := (move.effect few holding).change holding.toWatching holding.toDebugging
  refine ⟨change.documents, fun name actor tied => ?_⟩
  cases move with
  | idle alike =>
    rw [alike.ties] at tied
    exact .inl tied
  | mark own marked =>
    rw [marked.others] at tied
    · exact .inl tied
    · rintro rfl
      obtain ⟨_, _, _, _, _, _, walker, _⟩ := marked.marks
      rw [walker] at tied
      cases tied
  | extend added next extended => exact .inl (extended.tie?_node tied)
  | enrol own host node unknown taken hosts =>
    have named := s.named_domnode
    rw [plain_enrol host node (holding.given.find?_new named few) (taken.ne_new named few) (by trivial)] at tied
    rcases tied with ⟨rfl, same⟩ | old
    · cases same
      refine .inr ⟨named, ?_⟩
      unfold Walker.watch
      split
      · rename_i document
        exact document.symm
      · rename_i other
        simpa using other
    · exact .inl old
  | release name' =>
    rw [plain_releaseOne s name' (by trivial)] at tied
    exact .inl tied.2
  | debug self c live none =>
    rw [tie?_debugger live none] at tied
    split at tied
    · cases tied
    · exact .inl tied
  | attach self host host' live none => exact .inl tied
  | detach self =>
    rw [tie?, find?_detach] at tied
    exact .inl tied
  | trace self d f traces =>
    rw [tie?_congr traces.registry] at tied
    exact .inl tied

theorem Moves.referred (moves : ReflTransGen Move s t) (few : t.Few)
    (tidy : s.site.Tidy past) (holding : s.Holding past) : s.Referred t := by
  induction moves with
  | refl => exact ⟨fun _ _ => rfl, fun _ _ => .inl⟩
  | @tail t u moves move ih =>
    have few' := Nat.le_trans move.later.2 few
    have before := ih few'
    have last := move.referred few (Moves.upheld moves few' tidy holding).holding
    refine ⟨fun host node => (last.documents host node).trans (before.documents host node), fun name actor tied => ?_⟩
    have later := Moves.later moves
    rcases last.nodes name actor tied with old | ⟨named, watched⟩
    · refine (before.nodes name actor old).imp_right fun ⟨named, watched⟩ => ⟨?_, watched⟩
      exact named.widen (Nat.le_refl _) move.later.2
    · rw [later.1] at named
      rw [before.documents] at watched
      exact .inr ⟨named.widen later.2 (Nat.le_refl _), watched⟩

end Scene

end RemoteInspector
