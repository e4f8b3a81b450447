import Mathlib.Algebra.Order.Ring.Nat
import RemoteInspector.Proofs.Server.Resources
import RemoteInspector.Proofs.Trace.Frames
import RemoteInspector.Proofs.Trace.Starts
/-!
The tracers of a server's connections through every run: requests for details, traces and sessions keep in step.
-/
namespace RemoteInspector

open Relation (ReflTransGen)

namespace Server

variable {v w : Server} {id : ConnectionId} {c : Connection} {self : String}

/-- The trace that an operation starts for a tracer of a connection. -/
def Op.starts? (v : Server) (id : ConnectionId) (self : String) : Op → Option String
  | .receive id' packet =>
    if id' = id then (v.connection? id).bind fun c => (Serve.Input.packet packet).starts? ⟨v.site, c⟩ self else none
  | _ => none

/-- All the traces that have been started for a tracer in a run, the latest first. -/
def starts (v : Server) (id : ConnectionId) (self : String) : List Op → List String
  | [] => []
  | op :: rest => starts (v.apply op) id self rest ++ (op.starts? v id self).toList

theorem starts_append (v : Server) (id : ConnectionId) (self : String) (ops : List Op) (op : Op) :
    starts v id self (ops ++ [op]) = (op.starts? (run v ops) id self).toList ++ starts v id self ops := by
  induction ops generalizing v with
  | nil => simp [starts, run]
  | cons first rest ih =>
    rw [List.cons_append, starts, ih, starts, List.append_assoc]
    rfl

def InOrder (started : ConnectionId → String → List String) (v : Server) : Prop :=
  ∀ id c, v.connection? id = some c → ∀ x, (Scene.tracing ⟨v.site, c⟩ x).Recent (started id x)

variable {started : ConnectionId → String → List String}

theorem InOrder.same (inOrder : v.InOrder started) (connections : w.connections = v.connections) :
    w.InOrder started := by
  intro id c found x
  rw [connection?, connections] at found
  exact inOrder id c found x

theorem InOrder.turn (inOrder : v.InOrder started) (id : ConnectionId) (input : Serve.Input) :
    (v.onConnection id fun s => Serve.step s input).InOrder fun id' x =>
      (if id' = id then (v.connection? id).bind fun c => input.starts? ⟨v.site, c⟩ x else none).toList ++
        started id' x := by
  cases there : v.connection? id with
  | none =>
    rw [onConnection_none there]
    intro id' c found x
    simpa using inOrder id' c found x
  | some c =>
    have later := Serve.take_later c ⟨v.site, input⟩
    intro id' c' found x
    rw [connection?_onConnection there (f := fun s => Serve.step s input) rfl later.id] at found
    split at found
    · rename_i here
      subst here
      cases found
      dsimp only
      rw [if_pos rfl]
      exact Serve.step_recent (inOrder id' c there x) input
    · rename_i other
      dsimp only
      rw [if_neg other]
      exact inOrder id' c' found x

theorem Step.inOrder (step : v.Step Serve.Input.Calm w) (inOrder : v.InOrder started) : w.InOrder started := by
  cases step with
  | rest connections _ _ => exact inOrder.same connections
  | turn id input calm =>
    have turned := inOrder.turn id input
    intro id' c found x
    have same := turned id' c found x
    cases there : v.connection? id <;> simpa [there, calm.starts?] using same

theorem Steps.inOrder (steps : ReflTransGen (Step Serve.Input.Calm) v w) (inOrder : v.InOrder started) :
    w.InOrder started := by
  induction steps with
  | refl => exact inOrder
  | tail _ step ih => exact step.inOrder ih

theorem Onset.inOrder {told : List LogEntry} (onset : v.Onset told w) (numbered : v.Numbered)
    (inOrder : v.InOrder started) : w.InOrder started := by
  cases onset with
  | change connections _ _ => exact inOrder.same connections
  | join shared broken =>
    obtain ⟨t, begun, _, _, lookup⟩ := connection?_join numbered shared broken
    intro id c found x
    rw [lookup] at found
    split at found
    · cases found
      -- a new connection has no traces
      have idle : (t.tracing x).Recent [] := by
        rw [begun]
        split
        · exact ((Act.Shrinking.opening x).start v.site v.nextConnection _ v.tabs).recent (.refl _)
        · exact .refl _
      exact idle.trans (List.nil_sublist _)
    · exact inOrder id c found x
  | report =>
    intro id c found x
    rw [connection?_reported] at found
    obtain ⟨c', old, rfl⟩ := Option.map_eq_some_iff.mp found
    exact inOrder id c' old x

theorem apply_inOrder (numbered : v.Numbered) (op : Op) (inOrder : v.InOrder started) :
    (v.apply op).InOrder fun id x => (op.starts? v id x).toList ++ started id x := by
  have quiet (other : ∀ id packet, op ≠ .receive id packet) : (v.apply op).InOrder started := by
    obtain ⟨u, onset, steps⟩ := v.apply_steps op
    have calm {input} (brings : op.Brings input) : input.Calm :=
      (brings.resolve_right fun ⟨id, packet, same, _⟩ => other id packet same).1
    exact Steps.inOrder (steps.lift (fun v => v) fun _ _ step => step.mono calm) (onset.inOrder numbered inOrder)
  cases op with
  | receive id packet =>
    have settled := Steps.inOrder (settle_steps (fun calm _ => calm) _) (inOrder.turn id (.packet packet))
    intro id' c found x
    have recent := settled id' c found x
    by_cases here : id = id'
    · subst here
      dsimp only [Op.starts?] at recent ⊢
      rw [if_pos rfl] at recent ⊢
      exact recent
    · dsimp only [Op.starts?] at recent ⊢
      rw [if_neg (Ne.symm here)] at recent
      rw [if_neg here]
      exact recent
  | _ => exact quiet nofun

theorem run_inOrder (fresh : v.Fresh) (ops : List Op) : (run v ops).InOrder fun id x => starts v id x ops := by
  induction ops using List.reverseRecOn with
  | nil =>
    intro id c found
    rw [run, List.foldl_nil, fresh.connection?] at found
    cases found
  | append_singleton ops op ih =>
    have numbered := (run_advances v ops).numbered fresh.kept.numbered
    intro id c found x
    dsimp only
    rw [run_append] at found ⊢
    rw [starts_append]
    exact apply_inOrder numbered op ih id c found x

/-! ### Tracers in step -/

theorem hooked_tracer {past : List LogEntry} (kept : v.Kept past) {d : DebuggerId} {debugger : Debugger}
    (member : (d, debugger) ∈ v.site.debuggers) (hooked : debugger.frameHook = some ⟨id, self⟩) :
    ∃ c, v.connection? id = some c ∧ (Scene.tracing ⟨v.site, c⟩ self).debugger = some d ∧
      debugger.enabled = !(Scene.tracing ⟨v.site, c⟩ self).active.isEmpty := by
  have distinct : v.site.debuggers.keys.Nodup := Site.keys_hooks v.site ▸ kept.tidy.hooks
  have there := (Table.get?_eq_some_iff distinct).mpr member
  have found : v.site.hooks.get? d = some (some ⟨id, self⟩) := by
    rw [Site.get?_hooks, there, Option.map_some, hooked]
  cases connected : v.connection? id with
  | none =>
    -- Whoever is not there has no tracer that a debugger could report to.
    obtain ⟨on, debugs⟩ := (kept.strangers id .up connected).hooked found rfl
    exact debugs.elim nofun nofun
  | some c =>
    have holding := kept.holding connected
    obtain ⟨on, debugs⟩ := holding.hooked found (id_of_connection? connected).symm
    have paced := holding.paced debugs
    rw [Site.enabled?, there, Option.map_some] at paced
    rcases debugs with ⟨-, none⟩ | ⟨attached, runs⟩
    · cases none
    · exact ⟨c, rfl, attached, Option.some.inj (paced.trans runs)⟩

/-- As long as the names last, through every run of a server that begins with nothing open. For each tracer of a
connection: a detail is counted as often as the active traces ask for it, so that what a trace takes back when it
ends is there; the active traces have names of their own, and to stop without a name stops the one among them that
was started last; its debugger runs just as long as there are traces; and while it is detached there is no session
that reports to it, no trace and no request. A frame packet has a detail just if an active trace asks for it
and the frame has it. -/
theorem tracers_in_step (fresh : v.Fresh) (ops : List Op) (few : (run v ops).Few)
    (there : (run v ops).connection? id = some c) (self : String) :
    let s : Scene := ⟨(run v ops).site, c⟩
    let t := s.tracing self
    (∀ type, t.requests.count type = (t.active.map fun trace => trace.2.count type).sum) ∧
    (∀ name types, t.active.get? name = some types → types.Subperm t.requests) ∧
    t.active.keys.Nodup ∧
    (∀ host packet, s.find? self = some (.trace host) → packet.get? "to" = some (.str self) →
      packet.get? "type" = some (.str "stopTrace") → packet.get? "name" = none →
      (Request.handle s packet).1.tracing self =
        ((starts v id self ops).find? (t.active.contains ·)).elim t t.stop) ∧
    (∀ d, t.debugger = some d → s.site.enabled? d = some !t.active.isEmpty) ∧
    (t.debugger = none → t.active = [] ∧ (∀ type, t.requests.count type = 0) ∧
      ∀ p ∈ s.site.debuggers, p.2.frameHook ≠ some ⟨id, self⟩) ∧
    (c.line = .up →
      (∀ frame, ∃ packet : Fields, ((Tracer.onEnter self frame).after s).conn.sent = c.sent ++ [.obj packet] ∧
        ∀ type : TraceType, packet.get? type.text =
          if ∃ trace ∈ t.active, type ∈ trace.2 then Tracer.enterDetail? s.site frame type else none) ∧
      ∀ completion, ∃ packet : Fields, ((Tracer.onPop self completion).after s).conn.sent = c.sent ++ [.obj packet] ∧
        ∀ type : TraceType, packet.get? type.text =
          if ∃ trace ∈ t.active, type ∈ trace.2 then Tracer.popDetail? s.site completion type else none) := by
  intro s t
  have kept := run_kept ops few fresh.kept
  have holding : s.Holding _ := kept.holding there
  have sound : t.Sound := holding.tracings self
  have recent : t.Recent (starts v id self ops) := run_inOrder fresh ops id c there self
  have wants (type : TraceType) : t.wants type = true ↔ ∃ trace ∈ t.active, type ∈ trace.2 := sound.wants_iff type
  refine ⟨fun type => ?_, fun name types found => ?_, sound.keys, ?_, fun d attached => ?_, fun detached => ?_,
    fun up => ⟨fun frame => ?_, fun completion => ?_⟩⟩
  · rw [sound.requests.count_eq, Tracing.asked, List.count_flatMap]
    rfl
  · have apart := sound.requests.trans (Tracing.asked_erase sound.keys name)
    rw [found] at apart
    exact (List.sublist_append_left types _).subperm.trans apart.symm.subperm
  · intro host packet live addressed typed unnamed
    rw [Tracer.handle_stop sound live addressed typed unnamed, recent.chosen]
  · exact holding.paced (.inr ⟨attached, rfl⟩)
  · have idle := sound.detached detached
    refine ⟨idle, fun type => ?_, fun p member hooked => ?_⟩
    · rw [sound.requests_of_inactive idle]
      rfl
    · obtain ⟨c', there', attached, -⟩ := hooked_tracer kept member hooked
      cases there.symm.trans there'
      cases detached.symm.trans attached
  · obtain ⟨packet, sent, details⟩ := Tracer.onEnter_sends (s := s) up frame
    exact ⟨packet, sent, fun type => (details type).trans (if_congr (wants type) rfl rfl)⟩
  · obtain ⟨packet, sent, details⟩ := Tracer.onPop_sends (s := s) up completion
    exact ⟨packet, sent, fun type => (details type).trans (if_congr (wants type) rfl rfl)⟩

/-- Two traces, the first of them started anew: it is the one that a stop without a name ends. -/
theorem tracers_in_step_restarted : ∃ (v : Server) (ops : List Op) (c : Connection), v.Fresh ∧ (run v ops).Few ∧
    (run v ops).connection? 0 = some c ∧
    let s : Scene := ⟨(run v ops).site, c⟩
    let t := s.tracing "conn0.trace2"
    t.active.keys = ["first", "second"] ∧ t.requests.count .time = 2 ∧
    (Request.handle s [("to", .str "conn0.trace2"), ("type", .str "stopTrace")]).1.tracing "conn0.trace2" =
      t.stop "first" := by
  let v := hosting {}
  let request := asking "conn0.trace2"
  let start (name : String) (types : List String) : Op :=
    request "startTrace" [("name", .str name), ("trace", .strings types)]
  let ops : List Op :=
    [.newPage 7 "host" ⟨"", ""⟩, .connect true false, request "attach" [], start "first" ["name", "name"],
      start "second" ["time", "arguments"], start "first" ["time"]]
  have fresh : v.Fresh := fresh_hosting {}
  have few : (run v ops).Few := .of_all (by decide +kernel)
  have state : ((run v ops).connection? 0).map (fun c =>
      let s : Scene := ⟨(run v ops).site, c⟩
      let t := s.tracing "conn0.trace2"
      (t.active.keys, (t.active.map fun trace => trace.2.count .time).sum,
        (s.find? "conn0.trace2").map (·.schema.typeName),
        (starts v 0 "conn0.trace2" ops).find? (t.active.contains ·))) =
      some (["first", "second"], 2, some "trace", some "first") := by decide +kernel
  clear_value ops v
  obtain ⟨c, there, state⟩ := Option.map_eq_some_iff.mp state
  simp only [Prod.mk.injEq] at state
  obtain ⟨keys, total, traces, latest⟩ := state
  obtain ⟨actor, live, type⟩ := Option.map_eq_some_iff.mp traces
  cases actor with
  | trace host =>
    obtain ⟨counts, _, _, stops, _⟩ := tracers_in_step fresh ops few there "conn0.trace2"
    refine ⟨v, ops, c, fresh, few, there, keys, (counts .time).trans total, ?_⟩
    rw [stops host _ live rfl rfl rfl, latest]
    rfl
  | _ =>
    rw [Actor.schema] at type
    exact absurd type (by decide)

end Server

end RemoteInspector
