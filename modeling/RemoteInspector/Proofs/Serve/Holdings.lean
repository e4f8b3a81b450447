import RemoteInspector.Proofs.Serve.Moves
import RemoteInspector.Proofs.Site.Changes
/-!
What a connection holds on its site: the observers of its node actors and the debuggers of its consoles and tracers.
-/
namespace RemoteInspector

namespace Scene

/-- A node actor watches its node by an observer on its host. -/
def Watches (s : Scene) (name host : String) (k : ObserverId) (o : Observer) : Prop :=
  ∃ actor : NodeActor, s.tie? name = some (.node actor) ∧ actor.observer = some k ∧ actor.host = host ∧
    o = ⟨actor.node, s.conn.id, actor.walker⟩

/-- A console or a tracer has a debugger; that of a tracer is to run as long as there are traces. -/
def Debugs (s : Scene) (name : String) (d : DebuggerId) (runs : Option Bool) : Prop :=
  s.tie? name = some (.console (some d)) ∧ runs = none ∨
    (s.tracing name).debugger = some d ∧ runs = some !(s.tracing name).active.isEmpty

def Traced (s : Scene) : Prop := ∀ name d, (s.tracing name).debugger = some d → s.tie? name = some .trace

/-- What is opened, closed or switched in one move, with the actor that holds it. -/
inductive Effect (s t : Scene) : Prop
  | rest : (∀ x h k o, t.Watches x h k o ↔ s.Watches x h k o) → (∀ x d r, t.Debugs x d r ↔ s.Debugs x d r) →
      s.site.Rests t.site → Effect s t
  | observe (name host own : String) (node : NodeId) :
      (∀ x h k o, t.Watches x h k o ↔ s.Watches x h k o ∨
        x = name ∧ h = host ∧ k = s.site.nextObserver ∧ o = ⟨node, s.conn.id, own⟩) →
      (∀ x d r, t.Debugs x d r ↔ s.Debugs x d r) → t.site = (s.site.observe s.conn.id host node own).1 → Effect s t
  | disconnect (name host : String) (k : ObserverId) (o : Observer) : s.Watches name host k o →
      (∀ x h k' o', t.Watches x h k' o' ↔ s.Watches x h k' o' ∧ k' ≠ k) →
      (∀ x d r, t.Debugs x d r ↔ s.Debugs x d r) → t.site = s.site.disconnect s.conn.id host k → Effect s t
  | make (name : String) (runs : Option Bool) (hook : Option FrameHook) : runs ≠ some true →
      (∀ h, hook = some h → h = ⟨s.conn.id, name⟩ ∧ runs = some false) →
      (∀ x h k o, t.Watches x h k o ↔ s.Watches x h k o) →
      (∀ x d r, t.Debugs x d r ↔ s.Debugs x d r ∨ x = name ∧ d = s.site.nextDebugger ∧ r = runs) →
      s.site.Makes s.conn.id hook t.site → Effect s t
  | drop (name : String) (d : DebuggerId) (runs : Option Bool) : s.Debugs name d runs →
      (∀ x h k o, t.Watches x h k o ↔ s.Watches x h k o) →
      (∀ x d' r, t.Debugs x d' r ↔ s.Debugs x d' r ∧ d' ≠ d) →
      s.site.Sets s.conn.id (.dropDebugger d) d none none t.site → ⟨some s.conn.id, .dropDebugger d⟩ ∈ t.site.log →
      Effect s t
  | switch (name : String) (d : DebuggerId) (runs : Option Bool) (on : Bool) : s.Debugs name d runs →
      (∀ x h k o, t.Watches x h k o ↔ s.Watches x h k o) →
      (∀ x d' r, t.Debugs x d' r ↔ s.Debugs x d' r ∧ d' ≠ d ∨ x = name ∧ d' = d ∧ r = some on) →
      t.site = s.site.setEnabled s.conn.id d on → Effect s t

/-- The observers of a connection are those of its node actors, and those it has closed stay closed. -/
structure Watching (past : List LogEntry) (s : Scene) : Prop where
  opened : ∀ {name host k o}, s.Watches name host k o → (s.site.host host).observers.get? k = some o
  held : ∀ {host k o}, (s.site.host host).observers.get? k = some o → o.connection = s.conn.id →
    ∃ name, s.Watches name host k o
  alone : ∀ {name name' host host' k o o'}, s.Watches name host k o → s.Watches name' host' k o' → name = name'
  closed : ∀ {k node}, ⟨some s.conn.id, .observe k node⟩ ∈ past ++ s.site.log →
    (∃ name host o, s.Watches name host k o) ∨ ⟨some s.conn.id, .disconnect k⟩ ∈ past ++ s.site.log

/-- The debuggers of a connection are those of its consoles and tracers, and the others have been dropped. Those of
tracers report to them, and run as they are to. -/
structure Debugging (past : List LogEntry) (s : Scene) : Prop where
  live : ∀ {name d r}, s.Debugs name d r → (s.site.hooks.get? d).isSome
  made : ∀ {name d r}, s.Debugs name d r → ⟨some s.conn.id, .newDebugger d⟩ ∈ past ++ s.site.log
  sole : ∀ {name name' d r r'}, s.Debugs name d r → s.Debugs name' d r' → name = name'
  dropped : ∀ {d}, ⟨some s.conn.id, .newDebugger d⟩ ∈ past ++ s.site.log →
    (∃ name r, s.Debugs name d r) ∨ ⟨some s.conn.id, .dropDebugger d⟩ ∈ past ++ s.site.log
  hooked : ∀ {d hook}, s.site.hooks.get? d = some (some hook) → hook.connection = s.conn.id →
    ∃ on, s.Debugs hook.actor d (some on)
  paced : ∀ {name d on}, s.Debugs name d (some on) → s.site.enabled? d = some on

/-- What is open for a connection is what its actors hold. -/
structure Holding (past : List LogEntry) (s : Scene) : Prop extends s.Watching past, s.Debugging past where
  given : s.Given
  traced : s.Traced
  tracings : ∀ name, (s.tracing name).Sound

variable {s t : Scene} {past : List LogEntry}

/-! ### What an effect leaves -/

theorem Watches.own {name host : String} {k : ObserverId} {o : Observer} (watches : s.Watches name host k o) :
    o.connection = s.conn.id := by
  obtain ⟨actor, _, _, _, rfl⟩ := watches
  rfl

namespace Watching

theorem congr (watching : s.Watching past) (id : t.conn.id = s.conn.id)
    (watches : ∀ x h k o, t.Watches x h k o ↔ s.Watches x h k o) (keeps : s.site.KeepsObservers s.conn.id t.site) :
    t.Watching past where
  opened {name host k o} watched := by
    rw [watches] at watched
    exact (keeps.observers host k o watched.own).mpr (watching.opened watched)
  held {host k o} found own := by
    simp only [watches]
    rw [id] at own
    exact watching.held ((keeps.observers host k o own).mp found) own
  alone watched watched' := by
    rw [watches] at watched watched'
    exact watching.alone watched watched'
  closed {k node} called := by
    rw [id] at called ⊢
    simp only [watches]
    exact (watching.closed (keeps.old called)).imp_right keeps.mono

theorem put {host : String} {k : ObserverId} {o? : Option Observer} {call : HostCall} (watching : s.Watching past)
    (name : String) (id : t.conn.id = s.conn.id) (puts : s.site.Puts s.conn.id call host k o? t.site)
    (watches : ∀ x h k' o, t.Watches x h k' o ↔ s.Watches x h k' o ∧ k' ≠ k ∨ x = name ∧ h = host ∧ k' = k ∧ o? = some o)
    (only : ∀ h o, (s.site.host h).observers.get? k = some o → host = h) (closes : o? = none → call = .disconnect k)
    (opens : ∀ k' node, call = .observe k' node → k' = k ∧ o? ≠ none) : t.Watching past := by
  have new (put : o? ≠ none) : ∃ name host o, t.Watches name host k o := by
    obtain ⟨o, put⟩ := Option.ne_none_iff_exists'.mp put
    exact ⟨name, host, o, (watches _ _ _ _).mpr (.inr ⟨rfl, rfl, rfl, put⟩)⟩
  refine ⟨fun {x h k' o} watched => ?_, fun {h k' o} found own => ?_, fun {x x' h h' k' o o'} watched watched' => ?_,
    fun {k' node} called => ?_⟩
  · rw [puts.get?]
    rcases (watches _ _ _ _).mp watched with ⟨old, other⟩ | ⟨rfl, rfl, rfl, put⟩
    · rw [if_neg fun same => other same.2.symm]
      exact watching.opened old
    · rw [if_pos ⟨rfl, rfl⟩, put]
  · rw [id] at own
    rw [puts.get?] at found
    split at found
    · rename_i here
      exact ⟨name, (watches _ _ _ _).mpr (.inr ⟨rfl, here.1.symm, here.2.symm, found⟩)⟩
    · rename_i other
      obtain ⟨x, old⟩ := watching.held found own
      refine ⟨x, (watches _ _ _ _).mpr (.inl ⟨old, ?_⟩)⟩
      rintro rfl
      exact other ⟨only h o found, rfl⟩
  · rcases (watches _ _ _ _).mp watched with ⟨old, other⟩ | ⟨rfl, _, same, _⟩ <;>
      rcases (watches _ _ _ _).mp watched' with ⟨old', other'⟩ | ⟨rfl, _, same', _⟩
    · exact watching.alone old old'
    · exact absurd same' other
    · exact absurd same other'
    · rfl
  · rw [id] at called ⊢
    have log : Grows _ s.site.log t.site.log := ⟨_, puts.log, fun _ => List.mem_singleton.mp⟩
    by_cases same : k' = k
    · subst same
      by_cases put : o? = none
      · rw [puts.log, closes put]
        simp
      · exact .inl (new put)
    · rcases log.cases called with old | here
      · rcases watching.closed old with ⟨x, h, o, watched⟩ | gone
        · exact .inl ⟨x, h, o, (watches _ _ _ _).mpr (.inl ⟨watched, same⟩)⟩
        · exact .inr (log.mono gone)
      · exact absurd (opens k' node (congrArg LogEntry.call here).symm).1 same

end Watching

namespace Debugging

theorem congr (debugging : s.Debugging past) (id : t.conn.id = s.conn.id)
    (debugs : ∀ x d r, t.Debugs x d r ↔ s.Debugs x d r) (keeps : s.site.KeepsDebuggers s.conn.id past t.site) :
    t.Debugging past where
  live held := by
    rw [debugs] at held
    rw [keeps.sessions _ (debugging.made held)]
    exact debugging.live held
  made held := by
    rw [debugs] at held
    rw [id]
    exact keeps.mono (debugging.made held)
  sole held held' := by
    rw [debugs] at held held'
    exact debugging.sole held held'
  dropped called := by
    rw [id] at called ⊢
    simp only [debugs]
    exact (debugging.dropped (keeps.old called)).imp_right keeps.mono
  hooked {d hook} found own := by
    rw [id] at own
    simp only [debugs]
    exact debugging.hooked (keeps.hooked d hook own found) own
  paced held := by
    rw [debugs] at held
    rw [keeps.enabled _ (debugging.made held)]
    exact debugging.paced held

theorem set {d : DebuggerId} {call : HostCall} {hook : Option (Option FrameHook)} {on : Option Bool}
    (debugging : s.Debugging past) (name : String) (runs : Option (Option Bool)) (id : t.conn.id = s.conn.id)
    (sets : s.site.Sets s.conn.id call d hook on t.site)
    (debugs : ∀ x d' r, t.Debugs x d' r ↔ s.Debugs x d' r ∧ d' ≠ d ∨ x = name ∧ d' = d ∧ runs = some r)
    (live : runs ≠ none → hook.isSome) (made : runs ≠ none → ⟨some s.conn.id, .newDebugger d⟩ ∈ past ++ t.site.log)
    (dropped : runs = none → ⟨some s.conn.id, .dropDebugger d⟩ ∈ past ++ t.site.log)
    (new : ∀ d', call = .newDebugger d' → d' = d)
    (hooked : ∀ h, hook = some (some h) → h.connection = s.conn.id → h.actor = name ∧ ∃ b, runs = some (some b))
    (paced : ∀ b, runs = some (some b) → on = some b) : t.Debugging past := by
  refine ⟨fun {x d' r} held => ?_, fun {x d' r} held => ?_, fun {x x' d' r r'} held held' => ?_, fun {d'} called => ?_,
    fun {d' h} found own => ?_, fun {x d' b} held => ?_⟩
  · rw [sets.hooks]
    rcases (debugs _ _ _).mp held with ⟨old, other⟩ | ⟨_, rfl, holds⟩
    · rw [if_neg (Ne.symm other)]
      exact debugging.live old
    · rw [if_pos rfl]
      exact live (holds ▸ nofun)
  · rw [id]
    rcases (debugs _ _ _).mp held with ⟨old, _⟩ | ⟨_, rfl, holds⟩
    · exact sets.log.mono (debugging.made old)
    · exact made (holds ▸ nofun)
  · rcases (debugs _ _ _).mp held with ⟨old, other⟩ | ⟨rfl, same, _⟩ <;>
      rcases (debugs _ _ _).mp held' with ⟨old', other'⟩ | ⟨rfl, same', _⟩
    · exact debugging.sole old old'
    · exact absurd same' other
    · exact absurd same other'
    · rfl
  · rw [id] at called ⊢
    by_cases same : d' = d
    · subst same
      cases holds : runs with
      | none => exact .inr (dropped holds)
      | some r => exact .inl ⟨name, r, (debugs _ _ _).mpr (.inr ⟨rfl, rfl, holds⟩)⟩
    · rcases sets.log.cases called with old | here | passing
      · rcases debugging.dropped old with ⟨x, r, held⟩ | gone
        · exact .inl ⟨x, r, (debugs _ _ _).mpr (.inl ⟨held, same⟩)⟩
        · exact .inr (sets.log.mono gone)
      · exact absurd (new d' (congrArg LogEntry.call here).symm) same
      · exact passing.elim
  · rw [id] at own
    rw [sets.hooks] at found
    split at found
    · rename_i here
      obtain ⟨rfl, b, holds⟩ := hooked h found own
      exact ⟨b, (debugs _ _ _).mpr (.inr ⟨rfl, here.symm, holds⟩)⟩
    · rename_i other
      obtain ⟨b, held⟩ := debugging.hooked found own
      exact ⟨b, (debugs _ _ _).mpr (.inl ⟨held, Ne.symm other⟩)⟩
  · rw [sets.enabled]
    rcases (debugs _ _ _).mp held with ⟨old, other⟩ | ⟨_, rfl, holds⟩
    · rw [if_neg (Ne.symm other)]
      exact debugging.paced old
    · rw [if_pos rfl]
      exact paced b holds

end Debugging

theorem Holding.spared {site site' : Site} {c : Connection} (holding : Holding past ⟨site, c⟩)
    (spares : site.Spares c.id past site') : Holding past ⟨site', c⟩ where
  toWatching := holding.toWatching.congr rfl (fun _ _ _ _ => .rfl) spares.toKeepsObservers
  toDebugging := holding.toDebugging.congr rfl (fun _ _ _ => .rfl) spares.toKeepsDebuggers
  given := holding.given
  traced := holding.traced
  tracings := holding.tracings

theorem Debugging.switched {name : String} {runs : Option Bool} {d : DebuggerId} {on : Bool}
    (debugging : s.Debugging past) (held : s.Debugs name d runs) (site : t.site = s.site.setEnabled s.conn.id d on) :
    s.site.Sets s.conn.id (.enabled d on) d (s.site.hooks.get? d) (some on) t.site := by
  obtain ⟨was, found⟩ := Option.isSome_iff_exists.mp ((Site.isSome_enabled? _ _).trans (debugging.live held))
  have sets : s.site.Sets s.conn.id (.enabled d on) d _ _ t.site := site ▸ Site.sets_setEnabled s.site d on
  rwa [found] at sets

namespace Effect

theorem change (effect : s.Effect t) (watching : s.Watching past) (debugging : s.Debugging past) :
    s.site.Change s.conn.id past t.site := by
  cases effect with
  | rest _ _ rests => exact .rest rests
  | observe name host own node _ _ site =>
    rw [site]
    exact .observe host node own (Nat.lt_succ_self _) (Site.puts_observe ..)
  | disconnect name host k o watches _ _ site =>
    rw [site]
    exact .disconnect host k o (watching.opened watches) watches.own (Site.puts_disconnect ..)
  | make name runs hook _ whose _ _ makes =>
    refine .make hook (fun h same => ?_) makes
    rw [(whose h same).1]
  | drop name d runs debugs _ _ sets => exact .drop d (debugging.made debugs) (debugging.live debugs) sets
  | switch name d runs on debugs _ _ site =>
    exact .switch d on (debugging.made debugs) (debugging.live debugs) (debugging.switched debugs site)

theorem watching (effect : s.Effect t) (id : t.conn.id = s.conn.id) (tidy : s.site.Tidy past)
    (watching : s.Watching past) : t.Watching past := by
  cases effect with
  | rest watches _ rests => exact watching.congr id watches (rests.toStays.spares _ past).toKeepsObservers
  | observe name host own node watches _ site =>
    have fresh {h : String} {o : Observer} (found : (s.site.host h).observers.get? s.site.nextObserver = some o) : False :=
      Nat.lt_irrefl _ (tidy.numbered h _ o found)
    have puts := Site.puts_observe s.site s.conn.id host node own
    rw [← site] at puts
    refine watching.put name id puts (fun x h k o => ?_) (fun h o found => (fresh found).elim) nofun fun k' node' same => ?_
    · rw [watches, Option.some_inj, eq_comm (a := o)]
      refine or_congr_left (and_iff_left_of_imp ?_).symm
      rintro watched rfl
      exact fresh (watching.opened watched)
    · cases same
      exact ⟨rfl, nofun⟩
  | disconnect name host k o held watches _ site =>
    refine watching.put name id (site ▸ Site.puts_disconnect ..) (fun x h k' o' => ?_) (fun h o' found => ?_)
      (fun _ => rfl) nofun
    · simp [watches]
    · exact tidy.one host h k o o' (watching.opened held) found
  | make name runs hook _ _ watches _ makes => exact watching.congr id watches (makes.keepsObservers nofun)
  | drop name d runs debugs watches _ sets => exact watching.congr id watches (sets.keepsObservers nofun)
  | switch name d runs on debugs watches _ site =>
    have sets : s.site.Sets s.conn.id (.enabled d on) d _ _ t.site := site ▸ Site.sets_setEnabled s.site d on
    exact watching.congr id watches (sets.keepsObservers nofun)

theorem debugging (effect : s.Effect t) (id : t.conn.id = s.conn.id) (tidy : s.site.Tidy past)
    (debugging : s.Debugging past) : t.Debugging past := by
  cases effect with
  | rest _ debugs rests => exact debugging.congr id debugs (rests.toStays.spares _ past).toKeepsDebuggers
  | observe name host own node _ debugs site =>
    exact debugging.congr id debugs (site ▸ (Site.puts_observe ..).keepsDebuggers nofun)
  | disconnect name host k o held _ debugs site =>
    exact debugging.congr id debugs (site ▸ (Site.puts_disconnect ..).keepsDebuggers nofun)
  | make name runs hook idle whose _ debugs makes =>
    refine debugging.set name (some runs) id makes.toSets (fun x d r => ?_) (fun _ => rfl)
      (fun _ => List.mem_append_right _ makes.noted) nofun (fun d same => ?_) (fun h same _ => ?_) fun b same => ?_
    · rw [debugs, Option.some_inj, eq_comm (a := r)]
      refine or_congr_left (and_iff_left_of_imp ?_).symm
      -- The new number is that of no debugger so far.
      rintro held rfl
      obtain ⟨hook, found⟩ := Option.isSome_iff_exists.mp (debugging.live held)
      exact Nat.lt_irrefl _ (tidy.sessions _ hook found)
    · cases same
      rfl
    · obtain ⟨rfl, runs⟩ := whose h (Option.some.inj same)
      exact ⟨rfl, false, congrArg some runs⟩
    · cases b with
      | false => rfl
      | true => exact absurd (Option.some.inj same) idle
  | drop name d runs held _ debugs sets noted =>
    refine debugging.set name none id sets (fun x d' r => ?_) (absurd rfl) (absurd rfl)
      (fun _ => List.mem_append_right _ noted) nofun nofun nofun
    simp [debugs]
  | switch name d runs on held _ debugs site =>
    have sets := debugging.switched held site
    refine debugging.set name (some (some on)) id sets (fun x d' r => ?_) (fun _ => debugging.live held)
      (fun _ => sets.log.mono (debugging.made held)) nofun nofun (fun h found own => ?_) fun b same => ?_
    · rw [debugs, Option.some_inj, eq_comm (a := r)]
    · obtain ⟨_, hooked⟩ := debugging.hooked found own
      exact ⟨debugging.sole hooked held, on, rfl⟩
    · exact Option.some.inj same

end Effect

end Scene

end RemoteInspector
