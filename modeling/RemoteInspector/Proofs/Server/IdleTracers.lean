import RemoteInspector.Proofs.Server.Tracers
import RemoteInspector.Proofs.Trace.Numbers
/-!
Tracers that have no active trace: a host tells them of no frame that is entered, but still of those that are left and
that they saw entered.
-/
namespace RemoteInspector

open Tracer (tells)

namespace Tracer

theorem details_unwanted {t : Tracing} (idle : t.requests = []) (offer : TraceType → Option Json)
    (types : List TraceType) : details t offer types = [] := by
  refine List.flatMap_eq_nil_iff.mpr fun type _ => ?_
  rw [detail, Tracing.wants, idle]
  rfl

theorem sent_onPop {s : Scene} {self : String} (idle : (s.tracing self).requests = []) (completion : Completion Value) :
    ((onPop self completion).after s).conn.sent = s.conn.sent ++ if s.conn.line = .up
      then [Event.packet self "exitedFrame" [("sequence", .nat (s.tracing self).sequence)]] else [] := by
  cases line : s.conn.line with
  | up =>
    refine (sent_report line _ _).trans ?_
    rw [if_pos rfl, exited_eq, details_unwanted idle, List.append_nil]
    rfl
  | broken =>
    rw [if_neg nofun]
    simp [onPop, after_report, Scene.write, Scene.setSite, Scene.setTracing, Scene.setConn, line]

end Tracer

/-- What a client gets in a turn: the line of a connection that has ended is shut down. -/
def Serve.delivered (c : Connection) (turn : Turn) : List Json := if c.isOpen then said c turn else []

namespace Server

variable {host : String} {v : Server} {past : List LogEntry} {id : ConnectionId} {self : String}

/-! ### Who watches -/

theorem mem_watchers {site : Site} {global : GlobalId} {hook : FrameHook} (watches : hook ∈ watchers site host global) :
    ∃ d debugger, (d, debugger) ∈ site.debuggers ∧ debugger.enabled = true ∧ debugger.frameHook = some hook := by
  obtain ⟨⟨d, debugger⟩, member, hooked⟩ := List.mem_filterMap.mp watches
  dsimp only at hooked
  split at hooked
  · rename_i runs
    simp only [Bool.and_eq_true] at runs
    exact ⟨d, debugger, member, runs.1.2, hooked⟩
  · cases hooked

theorem active_of_watches (kept : v.Kept past) {global : GlobalId}
    (watches : ⟨id, self⟩ ∈ watchers v.site host global) :
    ∃ c, v.connection? id = some c ∧ (Scene.tracing ⟨v.site, c⟩ self).active ≠ [] := by
  obtain ⟨d, debugger, member, enabled, hooked⟩ := mem_watchers watches
  obtain ⟨c, there, -, paced⟩ := hooked_tracer kept member hooked
  refine ⟨c, there, fun idle => ?_⟩
  rw [enabled, idle] at paced
  cases paced

theorem inactive_of_idle (kept : v.Kept past) {c : Connection} (there : v.connection? id = some c)
    (idle : (Scene.tracing ⟨v.site, c⟩ self).active = [] ∨ (Scene.tracing ⟨v.site, c⟩ self).debugger = none ∨
      c.registry.find? self = none) : (Scene.tracing ⟨v.site, c⟩ self).active = [] := by
  have holding := kept.holding there
  rcases idle with inactive | detached | released
  · exact inactive
  · exact (holding.tracings self).detached detached
  · refine (holding.tracings self).detached (Option.eq_none_iff_forall_ne_some.mpr fun d attached => ?_)
    have tied := holding.traced self d attached
    rw [Scene.tie?, Scene.find?, released] at tied
    cases tied

/-- As long as the names last, through every run of a server that begins with nothing open. A tracer without an active
trace, be it idle, detached or released, is told of no frame that is entered. Apart from such news, it sends one packet
for each frame that it is told is left, while the connection goes on and the line holds, and no other frame packet. The
packet has no details. -/
theorem idle_tracer_told (fresh : v.Fresh) (ops : List Op) (few : (run v ops).Few) {c : Connection}
    (there : (run v ops).connection? id = some c) (traces : c.Traces self)
    (idle : (Scene.tracing ⟨(run v ops).site, c⟩ self).active = [] ∨
      (Scene.tracing ⟨(run v ops).site, c⟩ self).debugger = none ∨ c.registry.find? self = none) :
    (∀ host global, ⟨id, self⟩ ∉ watchers (run v ops).site host global) ∧
    ∀ turn : Serve.Turn, (∀ frame, turn.input ≠ .entered self frame) →
      (Serve.delivered c turn).filter (tells self) =
        if c.isOpen ∧ c.line = .up ∧ turn.input.frame? = some self
        then [Event.packet self "exitedFrame" [("sequence", .nat (Scene.tracing ⟨turn.site, c⟩ self).sequence)]]
        else [] := by
  have kept := run_kept ops few fresh.kept
  have inactive := inactive_of_idle kept there idle
  have requests := ((kept.holding there).tracings self).requests_of_inactive inactive
  refine ⟨fun host global watches => ?_, fun turn unentered => ?_⟩
  · obtain ⟨c', there', active⟩ := active_of_watches kept watches
    cases there.symm.trans there'
    exact active inactive
  · rw [Serve.delivered]
    split
    · rename_i goes_on
      obtain ⟨site, input⟩ := turn
      by_cases framed : input.frame? = some self
      · cases input with
        | left tracer completion =>
          cases framed
          have left : (Serve.take c ⟨site, .left self completion⟩).sent = _ :=
            Tracer.sent_onPop (s := ⟨site, c⟩) requests completion
          rw [Serve.said, left, List.drop_left]
          by_cases up : c.line = .up
          · rw [if_pos up, if_pos ⟨goes_on, up, rfl⟩, List.filter_cons_of_pos]
            · rfl
            · rw [Tracer.tells_packet (by simp [Event.Key])]
              simp [Tracer.frameTypes]
          · rw [if_neg up, if_neg fun all => up all.2.1]
            rfl
        | entered tracer frame =>
          cases framed
          exact absurd rfl (unentered frame)
        | _ => cases framed
      · rw [if_neg fun all => framed all.2.2, List.filter_eq_nil_iff]
        intro p member
        rw [Serve.said_untold traces framed p member]
        exact Bool.false_ne_true
    · rename_i ended
      rw [if_neg fun all => ended all.1]
      rfl

/-- A client starts a trace, and a frame is entered. -/
def entered : List Op :=
  [.newPage 7 "host" ⟨"", ""⟩, .connect true false, asking "conn0.trace2" "attach" [],
    asking "conn0.trace2" "startTrace" [("trace", .strings ["time"])],
    .enterFrame "host" ⟨none, "call", none, none, none, 1⟩]

/-- A trace has been stopped while a frame is entered that the tracer saw. -/
theorem idle_tracer_told_stopped : ∃ (v : Server) (ops : List Op) (c : Connection),
    v.Fresh ∧ (run v ops).Few ∧ (run v ops).connection? 0 = some c ∧ c.Traces "conn0.trace2" ∧
    (Scene.tracing ⟨(run v ops).site, c⟩ "conn0.trace2").active = [] ∧
    (Serve.delivered c ⟨(run v ops).site, .left "conn0.trace2" .terminated⟩).filter (tells "conn0.trace2") =
      [Event.packet "conn0.trace2" "exitedFrame" [("sequence", .nat 1)]] := by
  let v := hosting {}
  let ops := entered ++ [asking "conn0.trace2" "stopTrace" []]
  have fresh : v.Fresh := fresh_hosting {}
  have few : (run v ops).Few := .of_all (by decide +kernel)
  have state : ((run v ops).connection? 0).map (fun c =>
      let t := Scene.tracing ⟨(run v ops).site, c⟩ "conn0.trace2"
      (t.active, t.sequence, c.line, c.isOpen)) = some ([], 1, .up, true) := by decide +kernel
  have known : ((run v ops).connection? 0).map (fun c =>
      (c.registry.find? "conn0.trace2").map (·.schema.typeName)) = some (some "trace") := by decide +kernel
  clear_value ops v
  obtain ⟨c, there, state⟩ := Option.map_eq_some_iff.mp state
  simp only [Prod.mk.injEq] at state
  obtain ⟨idle, sequence, up, goes_on⟩ := state
  have traces : c.Traces "conn0.trace2" := by
    intro actor found
    have type : actor.schema.typeName = "trace" := by
      rw [there, Option.map_some, found] at known
      exact Option.some.inj (Option.some.inj known)
    cases actor with
    | trace host => exact ⟨host, rfl⟩
    | _ =>
      rw [Actor.schema] at type
      exact absurd type (by decide)
  refine ⟨v, ops, c, fresh, few, there, traces, idle, ?_⟩
  rw [(idle_tracer_told fresh ops few there traces (.inl idle)).2 _ (fun _ other => by cases other),
    if_pos ⟨goes_on, up, rfl⟩]
  exact congrArg (fun number => [Event.packet _ _ [("sequence", .nat number)]]) sequence

/-- A tracer that is detached while a frame is entered which it saw: it sends a packet when the frame is left. -/
theorem detached_tracer_tells : ∃ (v : Server) (ops : List Op) (op : Op) (c d : Connection),
    v.Fresh ∧ (run v ops).connection? 0 = some c ∧ (run v (ops ++ [op])).connection? 0 = some d ∧ c.isOpen = true ∧
    (Scene.tracing ⟨(run v ops).site, c⟩ "conn0.trace2").active = [] ∧
    (Scene.tracing ⟨(run v ops).site, c⟩ "conn0.trace2").debugger = none ∧
    ((d.sent.drop c.sent.length).filter (tells "conn0.trace2")).length = 1 := by
  let v := hosting {}
  let ops := entered ++ [asking "conn0.trace2" "detach" []]
  let op : Op := .popFrame "host" .terminated
  have fresh : v.Fresh := fresh_hosting {}
  have state : ((run v ops).connection? 0).bind (fun c => ((run v (ops ++ [op])).connection? 0).map fun d =>
      let t := Scene.tracing ⟨(run v ops).site, c⟩ "conn0.trace2"
      (c.isOpen, t.active, t.debugger, ((d.sent.drop c.sent.length).filter (tells "conn0.trace2")).length)) =
      some (true, [], none, 1) := by decide +kernel
  clear_value ops op v
  obtain ⟨c, there, state⟩ := Option.bind_eq_some_iff.mp state
  obtain ⟨d, later, state⟩ := Option.map_eq_some_iff.mp state
  simp only [Prod.mk.injEq] at state
  exact ⟨v, ops, op, c, d, fresh, there, later, state⟩

end Server

end RemoteInspector
