import RemoteInspector.Proofs.Site
/-!
How a connection opens and closes things on a site, one at a time. Numbers are given once, so what has been closed
stays closed, and what one connection opens or closes is no other's.
-/
namespace RemoteInspector

theorem HostCall.Passing.congr {call call' : HostCall} (passing : call.Passing) (same : call = call') :
    call'.Passing := same ▸ passing

namespace Site

variable {id id' : ConnectionId} {past : List LogEntry} {s t u : Site} {call : HostCall} {d : DebuggerId}
  {hook hook' : Option (Option FrameHook)} {on on' : Option Bool} {host : String} {k : ObserverId} {o? : Option Observer}

theorem get?_hooks (s : Site) (d : DebuggerId) : s.hooks.get? d = (s.debuggers.get? d).map (·.frameHook) :=
  Table.get?_map _ _ _

theorem keys_hooks (s : Site) : s.hooks.keys = s.debuggers.keys := by
  simp [hooks, Table.keys, Function.comp_def]

theorem isSome_enabled? (s : Site) (d : DebuggerId) : (s.enabled? d).isSome = (s.hooks.get? d).isSome := by
  rw [enabled?, get?_hooks, Option.isSome_map, Option.isSome_map]

/-- A connection has put one observer under a number, or taken it away from there. -/
structure Puts (id : ConnectionId) (call : HostCall) (host : String) (k : ObserverId) (o? : Option Observer)
    (s t : Site) : Prop where
  get? : ∀ host' k', (t.host host').observers.get? k' =
    if host = host' ∧ k = k' then o? else (s.host host').observers.get? k'
  keys : ∀ host', (s.host host').observers.keys.Nodup → (t.host host').observers.keys.Nodup
  later : s.nextObserver ≤ t.nextObserver
  hooks : t.hooks = s.hooks
  enabled : ∀ d, t.enabled? d = s.enabled? d
  nextDebugger : t.nextDebugger = s.nextDebugger
  documents : ∀ host node, (t.dom host).isDocument node = (s.dom host).isDocument node
  log : t.log = s.log ++ [⟨some id, call⟩]

/-- A connection has set one debugger, and made no lasting call but one. Where there is no debugger, there is no place
for a hook either. -/
structure Sets (id : ConnectionId) (call : HostCall) (d : DebuggerId) (hook : Option (Option FrameHook))
    (on : Option Bool) (s t : Site) : Prop where
  observers : ∀ host, (t.host host).observers = (s.host host).observers
  nextObserver : t.nextObserver = s.nextObserver
  hooks : ∀ d', t.hooks.get? d' = if d = d' then hook else s.hooks.get? d'
  enabled : ∀ d', t.enabled? d' = if d = d' then on else s.enabled? d'
  keys : s.hooks.keys.Nodup → t.hooks.keys.Nodup
  later : s.nextDebugger ≤ t.nextDebugger
  documents : ∀ host node, (t.dom host).isDocument node = (s.dom host).isDocument node
  log : Grows (fun e => e = ⟨some id, call⟩ ∨ e.call.Passing) s.log t.log

/-- A connection has made a debugger, and has done something to it before it lets go. -/
structure Makes (id : ConnectionId) (hook : Option FrameHook) (s t : Site) : Prop extends
    s.Sets id (.newDebugger s.nextDebugger) s.nextDebugger (some hook) (some false) t where
  given : s.nextDebugger < t.nextDebugger
  noted : ⟨some id, .newDebugger s.nextDebugger⟩ ∈ t.log

/-- What one connection does to a site in one move. It closes and switches only what it has opened. -/
inductive Change (id : ConnectionId) (past : List LogEntry) (s t : Site) : Prop
  | rest : s.Rests t → Change id past s t
  | observe (host : String) (node : NodeId) (walker : String) : s.nextObserver < t.nextObserver →
      s.Puts id (.observe s.nextObserver node) host s.nextObserver (some ⟨node, id, walker⟩) t → Change id past s t
  | disconnect (host : String) (k : ObserverId) (o : Observer) : (s.host host).observers.get? k = some o →
      o.connection = id → s.Puts id (.disconnect k) host k none t → Change id past s t
  | make (hook : Option FrameHook) : (∀ h, hook = some h → h.connection = id) → s.Makes id hook t → Change id past s t
  | drop (d : DebuggerId) : ⟨some id, .newDebugger d⟩ ∈ past ++ s.log → (s.hooks.get? d).isSome →
      s.Sets id (.dropDebugger d) d none none t → Change id past s t
  | switch (d : DebuggerId) (on : Bool) : ⟨some id, .newDebugger d⟩ ∈ past ++ s.log → (s.hooks.get? d).isSome →
      s.Sets id (.enabled d on) d (s.hooks.get? d) (some on) t → Change id past s t

/-! ### Single calls -/

theorem puts_observers {f : Table ObserverId Observer → Table ObserverId Observer}
    (hosts : ∀ host', t.host host' =
      if host = host' then { s.host host with observers := f (s.host host).observers } else s.host host')
    (get? : ∀ observers k', (f observers).get? k' = if k = k' then o? else Table.get? observers k')
    (keys : ∀ observers, (Table.keys observers).Nodup → (f observers).keys.Nodup)
    (later : s.nextObserver ≤ t.nextObserver) (debuggers : t.debuggers = s.debuggers)
    (next : t.nextDebugger = s.nextDebugger) (log : t.log = s.log ++ [⟨some id, call⟩]) :
    s.Puts id call host k o? t := by
  refine ⟨fun host' k' => ?_, fun host' nodup => ?_, later, ?_, fun d => ?_, next, fun host' node => ?_, log⟩
  · rw [hosts]
    by_cases same : host = host'
    · subst same
      simp [get?]
    · simp [same]
  · rw [hosts]
    split
    · rename_i same
      exact keys _ (same ▸ nodup)
    · exact nodup
  · rw [Site.hooks, debuggers, ← Site.hooks]
  · rw [enabled?, debuggers, ← enabled?]
  · rw [dom, hosts]
    split
    · rename_i same
      rw [same, dom]
    · rfl

theorem puts_observe (s : Site) (id : ConnectionId) (host : String) (node : NodeId) (walker : String) :
    s.Puts id (.observe s.nextObserver node) host s.nextObserver (some ⟨node, id, walker⟩)
      (s.observe id host node walker).1 :=
  puts_observers (f := (·.insert s.nextObserver ⟨node, id, walker⟩))
    (host_setHost s host · fun h => { h with observers := h.observers.insert s.nextObserver ⟨node, id, walker⟩ })
    (fun _ _ => Table.get?_insert ..) (fun _ nodup => Table.nodup_keys_insert nodup _ _) (Nat.le_succ _) rfl rfl rfl

theorem puts_disconnect (s : Site) (id : ConnectionId) (host : String) (k : ObserverId) :
    s.Puts id (.disconnect k) host k none (s.disconnect id host k) :=
  puts_observers (f := (·.erase k)) (host_setHost s host · fun h => { h with observers := h.observers.erase k })
    (fun _ _ => Table.get?_erase ..) (fun _ nodup => Table.nodup_keys_erase nodup _) (Nat.le_refl _) rfl rfl rfl

theorem makes_newDebugger (s : Site) (id : ConnectionId) (host : String) : s.Makes id none (s.newDebugger id host).1 where
  observers _ := rfl
  nextObserver := rfl
  hooks d := by
    rw [get?_hooks, get?_hooks]
    change ((s.debuggers.insert _ _).get? d).map _ = _
    rw [Table.get?_insert]
    split <;> rfl
  enabled d := by
    change ((s.debuggers.insert _ _).get? d).map _ = _
    rw [Table.get?_insert]
    split <;> rfl
  keys nodup := by
    rw [keys_hooks] at nodup ⊢
    exact Table.nodup_keys_insert nodup _ _
  later := Nat.le_succ _
  documents _ _ := rfl
  log := .one (.inl rfl)
  given := Nat.lt_succ_self _
  noted := List.mem_append_right _ (List.mem_singleton_self _)

theorem sets_dropDebugger (s : Site) (id : ConnectionId) (d : DebuggerId) :
    s.Sets id (.dropDebugger d) d none none (s.dropDebugger id d) where
  observers _ := rfl
  nextObserver := rfl
  hooks d' := by
    rw [get?_hooks, get?_hooks]
    change ((s.debuggers.erase d).get? d').map _ = _
    rw [Table.get?_erase]
    split <;> rfl
  enabled d' := by
    change ((s.debuggers.erase d).get? d').map _ = _
    rw [Table.get?_erase]
    split <;> rfl
  keys nodup := by
    rw [keys_hooks] at nodup ⊢
    exact Table.nodup_keys_erase nodup _
  later := Nat.le_refl _
  documents _ _ := rfl
  log := .one (.inl rfl)

/-! What lies between the call that makes or drops a debugger and the end of the move. -/

theorem sets_setDebugger (s : Site) (d : DebuggerId) (f : Debugger → Debugger) {origin : Option ConnectionId}
    {call' : HostCall} (passing : call'.Passing) :
    s.Sets id call d ((s.debuggers.get? d).map fun x => (f x).frameHook) ((s.debuggers.get? d).map fun x => (f x).enabled)
      ((s.setDebugger d f).note origin call') where
  observers _ := rfl
  nextObserver := rfl
  hooks d' := by
    rw [get?_hooks, get?_hooks]
    change ((s.debuggers.modify d f).get? d').map _ = _
    rw [Table.get?_modify]
    split
    · rename_i same
      rw [same, Option.map_map]
      rfl
    · rfl
  enabled d' := by
    change (s.setDebugger d f).enabled? d' = _
    rw [enabled?_setDebugger]
    split
    · rename_i same
      rw [same]
    · rfl
  keys nodup := by
    rw [keys_hooks] at nodup ⊢
    change (s.debuggers.modify d f).keys.Nodup
    rwa [Table.keys_modify]
  later := Nat.le_refl _
  documents _ _ := rfl
  log := .one (.inr passing)

theorem sets_setFrameHook (s : Site) (d : DebuggerId) (hook : Option FrameHook) :
    s.Sets id call d ((s.hooks.get? d).map fun _ => hook) (s.enabled? d) (s.setFrameHook id d hook) := by
  have sets : s.Sets id call d _ _ (s.setFrameHook id d hook) := sets_setDebugger s d _ trivial
  rwa [get?_hooks, Option.map_map]

theorem sets_setEnabled (s : Site) (d : DebuggerId) (on : Bool) :
    s.Sets id call d (s.hooks.get? d) ((s.enabled? d).map fun _ => on) (s.setEnabled id d on) := by
  have sets : s.Sets id call d _ _ (s.setEnabled id d on) := sets_setDebugger s d _ trivial
  rwa [get?_hooks, enabled?, Option.map_map]

theorem Rests.sets (rests : s.Rests t) : s.Sets id call d (s.hooks.get? d) (s.enabled? d) t where
  observers := rests.observers
  nextObserver := rests.nextObserver
  hooks d' := by
    rw [rests.hooks]
    split
    · rename_i same
      rw [same]
    · rfl
  enabled d' := by
    rw [rests.enabled]
    split
    · rename_i same
      rw [same]
    · rfl
  keys nodup := rests.hooks ▸ nodup
  later := Nat.le_of_eq rests.nextDebugger.symm
  documents := rests.documents
  log := Grows.imp rests.log fun _ => .inr

theorem Sets.trans (first : s.Sets id call d hook on t) (next : t.Sets id call d hook' on' u) :
    s.Sets id call d hook' on' u where
  observers host := (next.observers host).trans (first.observers host)
  nextObserver := next.nextObserver.trans first.nextObserver
  hooks d' := by
    rw [next.hooks, first.hooks]
    split <;> rfl
  enabled d' := by
    rw [next.enabled, first.enabled]
    split <;> rfl
  keys nodup := next.keys (first.keys nodup)
  later := Nat.le_trans first.later next.later
  documents host node := (next.documents host node).trans (first.documents host node)
  log := first.log.trans next.log

namespace Makes

variable {first last : Option FrameHook} (makes : s.Makes id first t)

include makes

theorem hooked : t.hooks.get? s.nextDebugger = some first := (makes.hooks _).trans (if_pos rfl)

theorem off : t.enabled? s.nextDebugger = some false := (makes.enabled _).trans (if_pos rfl)

theorem sets (sets : t.Sets id (.newDebugger s.nextDebugger) s.nextDebugger hook on u)
    (hooked : hook = some last) (off : on = some false) : s.Makes id last u where
  toSets := makes.toSets.trans (hooked ▸ off ▸ sets)
  given := Nat.lt_of_lt_of_le makes.given sets.later
  noted := List.mem_append.mp (sets.log.mono (List.mem_append_right [] makes.noted)) |>.resolve_left nofun

theorem rests (rests : t.Rests u) : s.Makes id first u :=
  makes.sets rests.sets makes.hooked makes.off

theorem setFrameHook (last : Option FrameHook) : s.Makes id last (t.setFrameHook id s.nextDebugger last) :=
  makes.sets (sets_setFrameHook ..) (by rw [makes.hooked]; rfl) makes.off

theorem disable : s.Makes id first (t.setEnabled id s.nextDebugger false) :=
  makes.sets (sets_setEnabled ..) makes.hooked (by rw [makes.off]; rfl)

end Makes

/-! ### Order on a site -/

/-- Every observer has a number of its own, and none is disconnected twice. -/
structure Watched (past : List LogEntry) (s : Site) : Prop where
  keys : ∀ host, (s.host host).observers.keys.Nodup
  numbered : ∀ host k o, (s.host host).observers.get? k = some o → k < s.nextObserver
  one : ∀ host host' k o o', (s.host host).observers.get? k = some o →
    (s.host host').observers.get? k = some o' → host = host'
  closed : ∀ e ∈ past ++ s.log, ∀ k, e.call = .disconnect k →
    k < s.nextObserver ∧ ∀ host, (s.host host).observers.get? k = none
  once : ∀ k, (past ++ s.log).countP (·.call = .disconnect k) ≤ 1

/-- Every debugger has a number of its own and one connection that made it, and none comes back. -/
structure Debugged (past : List LogEntry) (s : Site) : Prop where
  hooks : s.hooks.keys.Nodup
  sessions : ∀ d hook, s.hooks.get? d = some hook → d < s.nextDebugger
  dropped : ∀ e ∈ past ++ s.log, ∀ d, e.call = .dropDebugger d → d < s.nextDebugger ∧ s.hooks.get? d = none
  made : ∀ e ∈ past ++ s.log, ∀ d, e.call = .newDebugger d → d < s.nextDebugger
  maker : ∀ e ∈ past ++ s.log, ∀ e' ∈ past ++ s.log, ∀ d, e.call = .newDebugger d → e'.call = .newDebugger d →
    e.origin = e'.origin

/-- A site that agrees with all calls made on it, those told already and those in its log. -/
structure Tidy (past : List LogEntry) (s : Site) : Prop extends s.Watched past, s.Debugged past

namespace Watched

theorem congr (watched : s.Watched past) (observers : ∀ host, (t.host host).observers = (s.host host).observers)
    (next : t.nextObserver = s.nextObserver)
    (log : Grows (fun e => ∀ k, e.call ≠ .disconnect k) s.log t.log) : t.Watched past where
  keys host := by
    rw [observers]
    exact watched.keys host
  numbered host k o := by
    rw [observers, next]
    exact watched.numbered host k o
  one host host' k o o' := by
    rw [observers, observers]
    exact watched.one host host' k o o'
  closed e member k closed := by
    simp only [observers, next]
    exact watched.closed e ((log.cases member).resolve_right fun passing => passing k closed) k closed
  once k := by
    obtain ⟨calls, log, passing⟩ := log
    have none : calls.countP (·.call = .disconnect k) = 0 := by
      rw [List.countP_eq_zero]
      intro e member
      simpa using passing e member k
    rw [log, ← List.append_assoc, List.countP_append, none]
    exact watched.once k

theorem put (watched : s.Watched past) (puts : s.Puts id call host k o? t) (below : k < t.nextObserver)
    (new : o? ≠ none → k = s.nextObserver)
    (closes : ∀ k', call = .disconnect k' → k' = k ∧ o? = none ∧ ∃ o, (s.host host).observers.get? k = some o) :
    t.Watched past := by
  -- No observer so far has a number that is about to be given.
  have fresh {host' : String} {o o' : Observer} (put : o? = some o)
      (found : (s.host host').observers.get? k = some o') : False :=
    Nat.ne_of_lt (watched.numbered host' k o' found) (new (put ▸ nofun))
  refine ⟨fun host' => puts.keys host' (watched.keys host'), fun host' k' o found => ?_,
    fun host₁ host₂ k' o o' found found' => ?_, fun e member k' closed => ?_, fun k' => ?_⟩
  · rw [puts.get?] at found
    split at found
    · rename_i here
      exact here.2 ▸ below
    · exact Nat.lt_of_lt_of_le (watched.numbered host' k' o found) puts.later
  · rw [puts.get?] at found found'
    split at found <;> split at found' <;> rename_i here here'
    · exact here.1.symm.trans here'.1
    · exact (fresh found (here.2 ▸ found')).elim
    · exact (fresh found' (here'.2 ▸ found)).elim
    · exact watched.one host₁ host₂ k' o o' found found'
  · rw [puts.log, ← List.append_assoc] at member
    rcases List.mem_append.mp member with old | last
    · obtain ⟨earlier, absent⟩ := watched.closed e old k' closed
      refine ⟨Nat.lt_of_lt_of_le earlier puts.later, fun host' => ?_⟩
      rw [puts.get?]
      split
      · rename_i here
        by_contra put
        exact Nat.ne_of_lt earlier (here.2 ▸ new put)
      · exact absent host'
    · rw [List.mem_singleton.mp last] at closed
      obtain ⟨rfl, none, o, present⟩ := closes k' closed
      refine ⟨below, fun host' => ?_⟩
      rw [puts.get?]
      split
      · exact none
      · rename_i other
        -- An observer is on one host only.
        cases found : (s.host host').observers.get? k' with
        | none => rfl
        | some o' => exact absurd ⟨watched.one host host' k' o o' present found, rfl⟩ other
  · rw [puts.log, ← List.append_assoc, List.countP_append]
    by_cases closed : call = .disconnect k'
    · obtain ⟨rfl, _, o, present⟩ := closes k' closed
      -- It was open until now, so it has not been disconnected before.
      have never : (past ++ s.log).countP (·.call = .disconnect k') = 0 := by
        rw [List.countP_eq_zero]
        intro e member
        simp only [decide_eq_true_eq]
        intro closed
        rw [(watched.closed e member k' closed).2 host] at present
        cases present
      rw [never, closed]
      simp
    · have other : [(⟨some id, call⟩ : LogEntry)].countP (·.call = .disconnect k') = 0 := by simp [closed]
      rw [other]
      exact watched.once k'

end Watched

namespace Debugged

theorem congr (debugged : s.Debugged past) (hooks : t.hooks = s.hooks) (next : t.nextDebugger = s.nextDebugger)
    (log : Grows (fun e => ∀ d, e.call ≠ .newDebugger d ∧ e.call ≠ .dropDebugger d) s.log t.log) : t.Debugged past := by
  have old {e : LogEntry} {d : DebuggerId} (member : e ∈ past ++ t.log)
      (lasting : e.call = .newDebugger d ∨ e.call = .dropDebugger d) : e ∈ past ++ s.log :=
    (log.cases member).resolve_right fun passing => lasting.elim (passing d).1 (passing d).2
  refine ⟨?_, fun d hook => ?_, fun e member d call => ?_, fun e member d call => ?_,
    fun e member e' member' d call call' => ?_⟩
  · rw [hooks]
    exact debugged.hooks
  · rw [hooks, next]
    exact debugged.sessions d hook
  · rw [hooks, next]
    exact debugged.dropped e (old member (.inr call)) d call
  · rw [next]
    exact debugged.made e (old member (.inl call)) d call
  · exact debugged.maker e (old member (.inl call)) e' (old member' (.inl call')) d call call'

theorem set (debugged : s.Debugged past) (sets : s.Sets id call d hook on t) (below : d < t.nextDebugger)
    (new : ∀ d', call = .newDebugger d' → d' = d ∧ d = s.nextDebugger)
    (drops : ∀ d', call = .dropDebugger d' → d' = d ∧ hook = none)
    (known : hook ≠ none → d < s.nextDebugger → s.hooks.get? d ≠ none) : t.Debugged past := by
  -- A debugger that has been made was made before, unless it is the new one.
  have making {e : LogEntry} {d' : DebuggerId} (member : e ∈ past ++ t.log) (made : e.call = .newDebugger d') :
      e ∈ past ++ s.log ∧ d' < s.nextDebugger ∨ e = ⟨some id, call⟩ ∧ d' = d ∧ d = s.nextDebugger := by
    rcases sets.log.cases member with old | rfl | passing
    · exact .inl ⟨old, debugged.made e old d' made⟩
    · exact .inr ⟨rfl, new d' made⟩
    · exact (passing.congr made).elim
  refine ⟨sets.keys debugged.hooks, fun d' hook' found => ?_, fun e member d' dropped => ?_, fun e member d' made => ?_,
    fun e member e' member' d' made made' => ?_⟩
  · rw [sets.hooks] at found
    split at found
    · rename_i here
      exact here ▸ below
    · exact Nat.lt_of_lt_of_le (debugged.sessions d' hook' found) sets.later
  · rw [sets.hooks]
    rcases sets.log.cases member with old | rfl | passing
    · obtain ⟨earlier, absent⟩ := debugged.dropped e old d' dropped
      refine ⟨Nat.lt_of_lt_of_le earlier sets.later, ?_⟩
      split
      · rename_i here
        subst here
        by_contra there
        exact known there earlier absent
      · exact absent
    · obtain ⟨rfl, none⟩ := drops d' dropped
      exact ⟨below, (if_pos rfl).trans none⟩
    · exact (passing.congr dropped).elim
  · rcases making member made with ⟨_, earlier⟩ | ⟨_, rfl, _⟩
    · exact Nat.lt_of_lt_of_le earlier sets.later
    · exact below
  · rcases making member made with ⟨old, earlier⟩ | ⟨rfl, same, last⟩ <;>
      rcases making member' made' with ⟨old', earlier'⟩ | ⟨rfl, same', last'⟩
    · exact debugged.maker e old e' old' d' made made'
    · exact absurd (same'.trans last') (Nat.ne_of_lt earlier)
    · exact absurd (same.trans last) (Nat.ne_of_lt earlier')
    · rfl

end Debugged

theorem Tidy.stays (tidy : s.Tidy past) (stays : s.Stays t) : t.Tidy past :=
  ⟨tidy.toWatched.congr stays.observers stays.nextObserver (Grows.imp stays.log fun _ passing _ => passing.congr),
    tidy.toDebugged.congr stays.hooks stays.nextDebugger
      (Grows.imp stays.log fun _ passing _ => ⟨passing.congr, passing.congr⟩)⟩

theorem Tidy.told (tidy : s.Tidy past) : Tidy (past ++ s.log) { s with log := [] } := by
  refine ⟨⟨tidy.keys, tidy.numbered, tidy.one, ?_, ?_⟩, ⟨tidy.hooks, tidy.sessions, ?_, ?_, ?_⟩⟩ <;>
    simp only [List.append_nil]
  · exact tidy.closed
  · exact tidy.once
  · exact tidy.dropped
  · exact tidy.made
  · exact tidy.maker

theorem Tidy.put (tidy : s.Tidy past) (puts : s.Puts id call host k o? t) (below : k < t.nextObserver)
    (new : o? ≠ none → k = s.nextObserver)
    (closes : ∀ k', call = .disconnect k' → k' = k ∧ o? = none ∧ ∃ o, (s.host host).observers.get? k = some o)
    (passing : ∀ d, call ≠ .newDebugger d ∧ call ≠ .dropDebugger d) : t.Tidy past :=
  ⟨tidy.toWatched.put puts below new closes,
    tidy.toDebugged.congr puts.hooks puts.nextDebugger (puts.log ▸ .one passing)⟩

theorem Tidy.set (tidy : s.Tidy past) (sets : s.Sets id call d hook on t) (below : d < t.nextDebugger)
    (new : ∀ d', call = .newDebugger d' → d' = d ∧ d = s.nextDebugger)
    (drops : ∀ d', call = .dropDebugger d' → d' = d ∧ hook = none)
    (known : hook ≠ none → d < s.nextDebugger → s.hooks.get? d ≠ none) (passing : ∀ k, call ≠ .disconnect k) :
    t.Tidy past := by
  refine ⟨tidy.toWatched.congr sets.observers sets.nextObserver (sets.log.imp fun e logged k => ?_),
    tidy.toDebugged.set sets below new drops known⟩
  rcases logged with rfl | other
  · exact passing k
  · exact other.congr

/-- Whatever a connection opens or closes, the site stays tidy. -/
theorem Tidy.change (tidy : s.Tidy past) (change : s.Change id past t) : t.Tidy past := by
  -- A debugger that is there has a number which was given.
  have below {d : DebuggerId} (present : (s.hooks.get? d).isSome) (later : s.nextDebugger ≤ t.nextDebugger) :
      d < t.nextDebugger := by
    obtain ⟨hook, found⟩ := Option.isSome_iff_exists.mp present
    exact Nat.lt_of_lt_of_le (tidy.sessions d hook found) later
  cases change with
  | rest rests => exact tidy.stays rests.toStays
  | observe host node walker later puts => exact tidy.put puts later (fun _ => rfl) nofun fun _ => ⟨nofun, nofun⟩
  | disconnect host k o present own puts =>
    refine tidy.put puts (Nat.lt_of_lt_of_le (tidy.numbered host k o present) puts.later) nofun (fun k' same => ?_)
      fun _ => ⟨nofun, nofun⟩
    cases same
    exact ⟨rfl, rfl, o, present⟩
  | make hook own makes =>
    refine tidy.set makes.toSets makes.given (fun d same => ?_) nofun (fun _ old => absurd old (Nat.lt_irrefl _)) nofun
    cases same
    exact ⟨rfl, rfl⟩
  | drop d own present sets =>
    refine tidy.set sets (below present sets.later) nofun (fun d' same => ?_) nofun nofun
    cases same
    exact ⟨rfl, rfl⟩
  | switch d on own present sets =>
    exact tidy.set sets (below present sets.later) nofun nofun (fun there _ => there) nofun

theorem Change.documents (change : s.Change id past t) (host : String) (node : NodeId) :
    (t.dom host).isDocument node = (s.dom host).isDocument node := by
  cases change with
  | rest rests => exact rests.documents host node
  | observe _ _ _ _ puts => exact puts.documents host node
  | disconnect _ _ _ _ _ puts => exact puts.documents host node
  | make _ _ makes => exact makes.documents host node
  | drop _ _ _ sets => exact sets.documents host node
  | switch _ _ _ _ sets => exact sets.documents host node

/-! ### What is another's -/

/-- The observers of a connection are as before, and it has made no new one. -/
structure KeepsObservers (id : ConnectionId) (s t : Site) : Prop where
  observers : ∀ host k o, o.connection = id →
    ((t.host host).observers.get? k = some o ↔ (s.host host).observers.get? k = some o)
  observed : ∃ calls, t.log = s.log ++ calls ∧ ∀ e ∈ calls, e.origin = some id → ∀ k node, e.call ≠ .observe k node

/-- The debuggers of a connection are as before, and it has made no new one. -/
structure KeepsDebuggers (id : ConnectionId) (past : List LogEntry) (s t : Site) : Prop where
  sessions : ∀ d, ⟨some id, .newDebugger d⟩ ∈ past ++ s.log → t.hooks.get? d = s.hooks.get? d
  enabled : ∀ d, ⟨some id, .newDebugger d⟩ ∈ past ++ s.log → t.enabled? d = s.enabled? d
  hooked : ∀ d hook, hook.connection = id → t.hooks.get? d = some (some hook) → s.hooks.get? d = some (some hook)
  made : ∃ calls, t.log = s.log ++ calls ∧ ∀ e ∈ calls, e.origin = some id → ∀ d, e.call ≠ .newDebugger d

structure Spares (id : ConnectionId) (past : List LogEntry) (s t : Site) : Prop
    extends s.KeepsObservers id t, s.KeepsDebuggers id past t

namespace KeepsObservers

theorem old (keeps : s.KeepsObservers id t) {k : ObserverId} {node : NodeId}
    (member : ⟨some id, .observe k node⟩ ∈ past ++ t.log) : ⟨some id, .observe k node⟩ ∈ past ++ s.log :=
  (Grows.cases keeps.observed member).resolve_right fun none => none rfl k node rfl

theorem mono (keeps : s.KeepsObservers id t) {e : LogEntry} (member : e ∈ past ++ s.log) : e ∈ past ++ t.log :=
  Grows.mono keeps.observed member

end KeepsObservers

namespace KeepsDebuggers

theorem old (keeps : s.KeepsDebuggers id past t) {d : DebuggerId}
    (member : ⟨some id, .newDebugger d⟩ ∈ past ++ t.log) : ⟨some id, .newDebugger d⟩ ∈ past ++ s.log :=
  (Grows.cases keeps.made member).resolve_right fun none => none rfl d rfl

theorem mono (keeps : s.KeepsDebuggers id past t) {e : LogEntry} (member : e ∈ past ++ s.log) : e ∈ past ++ t.log :=
  Grows.mono keeps.made member

end KeepsDebuggers

/-! Opening and closing debuggers leaves all observers alone, and the other way round. -/

theorem Sets.keepsObservers (sets : s.Sets id call d hook on t) (none : ∀ k node, call ≠ .observe k node) :
    s.KeepsObservers id' t where
  observers host k o _ := by rw [sets.observers]
  observed := sets.log.imp fun e logged _ k node => by
    rcases logged with rfl | passing
    · exact none k node
    · exact passing.congr

theorem Puts.keepsDebuggers (puts : s.Puts id call host k o? t) (none : ∀ d, call ≠ .newDebugger d) :
    s.KeepsDebuggers id' past t where
  sessions d _ := by rw [puts.hooks]
  enabled d _ := puts.enabled d
  hooked d hook _ found := puts.hooks ▸ found
  made := ⟨_, puts.log, fun e member _ => List.mem_singleton.mp member ▸ none⟩

theorem Stays.spares (stays : s.Stays t) (id : ConnectionId) (past : List LogEntry) : s.Spares id past t where
  observers host k o _ := by rw [stays.observers]
  observed := Grows.imp stays.log fun _ passing _ _ _ => passing.congr
  sessions d _ := by rw [stays.hooks]
  enabled d _ := stays.enabled d
  hooked d hook _ found := stays.hooks ▸ found
  made := Grows.imp stays.log fun _ passing _ _ => passing.congr

theorem Puts.spares (puts : s.Puts id call host k o? t) (other : id' ≠ id) (none : ∀ d, call ≠ .newDebugger d)
    (mine : ∀ o, o? = some o ∨ (s.host host).observers.get? k = some o → o.connection = id) : s.Spares id' past t := by
  refine ⟨⟨fun host' k' o own => ?_, _, puts.log, fun e member own => ?_⟩, puts.keepsDebuggers none⟩
  · rw [puts.get?]
    split
    · rename_i here
      obtain ⟨rfl, rfl⟩ := here
      have theirs (mine : o.connection = id) : False := other (own.symm.trans mine)
      exact ⟨fun new => (theirs (mine o (.inl new))).elim, fun old => (theirs (mine o (.inr old))).elim⟩
    · rfl
  · rw [List.mem_singleton.mp member] at own
    exact absurd (Option.some.inj own).symm other

theorem Sets.spares (sets : s.Sets id call d hook on t) (other : id' ≠ id) (none : ∀ k node, call ≠ .observe k node)
    (elsewhere : ∀ d', ⟨some id', .newDebugger d'⟩ ∈ past ++ s.log → d ≠ d')
    (hooked : ∀ h, hook = some (some h) → h.connection = id' → s.hooks.get? d = hook) : s.Spares id' past t := by
  refine ⟨sets.keepsObservers none, fun d' own => ?_, fun d' own => ?_, fun d' h own found => ?_,
    sets.log.imp fun e logged own d' => ?_⟩
  · rw [sets.hooks, if_neg (elsewhere d' own)]
  · rw [sets.enabled, if_neg (elsewhere d' own)]
  · rw [sets.hooks] at found
    split at found
    · rename_i here
      exact here ▸ (hooked h found own).trans found
    · exact found
  · rcases logged with rfl | passing
    · exact absurd (Option.some.inj own).symm other
    · exact passing.congr

theorem Change.spares (change : s.Change id past t) (tidy : s.Tidy past) (other : id' ≠ id) : s.Spares id' past t := by
  -- No two connections make the same debugger.
  have elsewhere {d : DebuggerId} (mine : ⟨some id, .newDebugger d⟩ ∈ past ++ s.log) (d' : DebuggerId)
      (own : ⟨some id', .newDebugger d'⟩ ∈ past ++ s.log) : d ≠ d' := by
    rintro rfl
    exact other (Option.some.inj (tidy.maker _ own _ mine d rfl rfl))
  cases change with
  | rest rests => exact rests.toStays.spares id' past
  | observe host node walker later puts =>
    refine puts.spares other nofun fun o put => ?_
    rcases put with new | old
    · exact Option.some.inj new ▸ rfl
    · exact absurd (tidy.numbered host _ o old) (Nat.lt_irrefl _)
  | disconnect host k o present mine puts =>
    refine puts.spares other nofun fun o' put => ?_
    rcases put with new | old
    · cases new
    · exact Option.some.inj (present.symm.trans old) ▸ mine
  | make hook mine makes =>
    refine makes.toSets.spares other nofun (fun d' own => Nat.ne_of_gt (tidy.made _ own d' rfl)) fun h same own => ?_
    exact absurd (own.symm.trans (mine h (Option.some.inj same))) other
  | drop d mine present sets => exact sets.spares other nofun (elsewhere mine) nofun
  | switch d on mine present sets => exact sets.spares other nofun (elsewhere mine) fun _ _ _ => rfl

end Site

end RemoteInspector
