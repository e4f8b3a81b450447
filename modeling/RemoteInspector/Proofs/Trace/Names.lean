import Mathlib.Data.List.Count
import RemoteInspector.Proofs.Trace.Starts
/-!
The names of traces: where the client gives none, a trace is named by the number of starts, and may take the place of
one for which a client has chosen that name. Starts are counted in a word, so the names of old come back in the end.
-/
namespace RemoteInspector

namespace Tracing

variable {t u : Tracing} {choices : List (Option String)}

def defaultName (n : Nat) : String := "Trace " ++ toString n

theorem defaultName_injective {m n : Nat} (same : defaultName m = defaultName n) : m = n := by
  have digits : (toString m).toList = (toString n).toList := by
    have characters := congrArg String.toList same
    simpa only [defaultName, String.toList_append, List.append_cancel_left_eq] using characters
  have read := congrArg (fun digits => Nat.ofDigitChars 10 digits 0) digits
  simpa [Nat.toString_eq_ofList_toDigits] using read

/-- How the active traces came by their names, given what the client chose at each start. -/
structure Named (choices : List (Option String)) (t : Tracing) : Prop where
  keys : t.active.keys.Nodup
  total : t.total = .ofNat choices.length
  names : ∀ name ∈ t.active.keys, some name ∈ choices ∨ ∃ n ≤ choices.length, name = defaultName n

namespace Named

theorem initial : Named [] {} := ⟨.nil, rfl, fun _ none => nomatch none⟩

theorem shrinks (named : t.Named choices) (fewer : t.Shrinks u) : u.Named choices where
  keys := (fewer.active.map Prod.fst).nodup named.keys
  total := fewer.total.trans named.total
  names name member := named.names name ((fewer.active.map Prod.fst).subset member)

theorem same (named : t.Named choices) (same : t.Same u) : u.Named choices := by
  rw [same]
  exact ⟨named.keys, named.total, named.names⟩

theorem next (named : t.Named choices) : t.total + 1 = .ofNat (choices.length + 1) := by
  rw [UInt32.ofNat_add, ← named.total]
  rfl

theorem start (named : t.Named choices) (given : Option String) (types : List TraceType) :
    (t.start given types).Named (choices ++ [given]) where
  keys := nodup_start named.keys given types
  total := by
    rw [List.length_append, List.length_singleton]
    exact named.next
  names name member := by
    have longer : choices.length ≤ (choices ++ [given]).length := by simp
    rcases List.mem_cons.mp member with rfl | old
    · cases given with
      | some chosen => exact .inl (by simp [nameFor])
      | none =>
        refine .inr ⟨(t.total + 1).toNat, ?_, rfl⟩
        rw [named.next, UInt32.toNat_ofNat', List.length_append, List.length_singleton]
        exact Nat.mod_le _ _
    · change name ∈ (t.active.erase _).keys at old
      rw [Table.keys_erase] at old
      rcases named.names name (List.mem_filter.mp old).1 with chosen | ⟨n, bound, default⟩
      · exact .inl (List.mem_append_left _ chosen)
      · exact .inr ⟨n, Nat.le_trans bound longer, default⟩

/-- Before the count comes round, a name that is taken was chosen. -/
theorem chosen (named : t.Named choices) (few : choices.length + 1 < UInt32.size) (active : t.active.contains (t.nameFor none) = true) :
    some (t.nameFor none) ∈ choices := by
  rcases named.names _ (Table.contains_iff_mem.mp active) with chosen | ⟨n, bound, default⟩
  · exact chosen
  · have number : (t.total + 1).toNat = n := defaultName_injective default
    rw [named.next, UInt32.toNat_ofNat_of_lt' few] at number
    omega

end Named

theorem length_start (nodup : t.active.keys.Nodup) (given : Option String) (types : List TraceType) :
    (t.start given types).active.length = t.active.length + if t.active.contains (t.nameFor given) then 0 else 1 := by
  change (t.active.erase (t.nameFor given)).length + 1 = _
  rw [Table.length_erase nodup]
  split
  · rename_i active
    have positive : 0 < t.active.keys.length := List.length_pos_of_mem (Table.contains_iff_mem.mp active)
    rw [Table.keys, List.length_map] at positive
    omega
  · rfl

end Tracing

namespace Serve

variable {c : Connection}

variable {self : String} {chosen : List (Option String)}

/-- What the client chose as the name of the trace that a turn starts; nothing where none starts. -/
def Turn.choice? (self : String) (c : Connection) (turn : Turn) : Option (Option String) :=
  match turn.input with
  | .packet (.obj packet) =>
    (turn.input.starts? ⟨turn.site, c⟩ self).map fun _ => (Fields.get? packet "name").bind Json.string?
  | _ => none

/-- What the client chose at each start of a trace, in order. -/
def choices (self : String) : Connection → List Turn → List (Option String)
  | _, [] => []
  | c, turn :: rest => (turn.choice? self c).toList ++ choices self (take c turn) rest

theorem choice?_eq_none {turn : Turn} (idle : turn.input.starts? ⟨turn.site, c⟩ self = none) :
    turn.choice? self c = none := by
  unfold Turn.choice?
  split
  · rw [idle]
    rfl
  · rfl

theorem take_named (turn : Turn) {site : Site} (named : (Scene.tracing ⟨turn.site, c⟩ self).Named chosen) :
    (Scene.tracing ⟨site, take c turn⟩ self).Named (chosen ++ (turn.choice? self c).toList) := by
  change ((step ⟨turn.site, c⟩ turn.input).tracing self).Named _
  cases starts : turn.input.starts? ⟨turn.site, c⟩ self with
  | some name =>
    obtain ⟨packet, asks, asked, ended⟩ := step_starts starts
    obtain ⟨-, types, -, after⟩ := Tracer.handle_starts asked
    have choice : turn.choice? self c = some ((packet.get? "name").bind Json.string?) := by
      unfold Turn.choice?
      rw [asks] at starts ⊢
      dsimp only
      rw [starts]
      rfl
    rw [choice]
    refine Tracing.Named.shrinks ?_ ended
    rw [after]
    exact named.start _ types
  | none =>
    rw [choice?_eq_none starts, Option.toList_none, List.append_nil]
    by_cases framed : turn.input.frame? = some self
    · rw [step_framed framed, if_pos rfl]
      exact named.same rfl
    · exact named.shrinks (step_shrinks starts framed)

theorem foldl_take_named {turns : List Turn} {site : Site}
    (named : ∀ site, (Scene.tracing ⟨site, c⟩ self).Named chosen) :
    (Scene.tracing ⟨site, turns.foldl take c⟩ self).Named (chosen ++ choices self c turns) := by
  induction turns generalizing c chosen with
  | nil =>
    rw [choices, List.append_nil]
    exact named site
  | cons turn rest ih =>
    rw [choices, ← List.append_assoc]
    exact ih fun site => take_named turn (named turn.site)

theorem begun_named (begun : Begun c) (site : Site) : (Scene.tracing ⟨site, c⟩ self).Named [] := by
  obtain ⟨before, id, line, tabs, rfl⟩ := begun
  exact Tracing.Named.initial.shrinks ((Act.Shrinking.opening self).start before id line tabs)

/-! ### Starts without a name -/

/-- Through every run of a connection: a packet that starts a trace and names none starts it under a name with the
number of starts so far. The trace is active under the name that is returned, with the details that were asked for, and
all others stay as they were. It is one more trace unless that name was the name of an active trace. For as long as the
count of starts has not come round, that only happens where the client had chosen this very name for an earlier trace. -/
theorem unnamed_start {c : Connection} (begun : Begun c) (turns : List Turn) (site : Site) (self : String)
    (packet : Fields) (name : String) (up : (turns.foldl take c).line = .up)
    (starts : Tracer.starts? ⟨site, turns.foldl take c⟩ self packet = some name)
    (unnamed : (packet.get? "name").bind Json.string? = none) :
    let s : Scene := ⟨site, turns.foldl take c⟩
    let before := (s.tracing self).active
    let after := ((receive s (.obj packet)).tracing self).active
    ∃ types, Tracer.types packet = .ok types ∧
      (receive s (.obj packet)).conn.sent = s.conn.sent ++ [Request.withId packet (.object
        [("from", .str self), ("type", .str "startedTrace"), ("why", .str "requested"), ("name", .str name)])] ∧
      name = "Trace " ++ toString (UInt32.ofNat ((choices self c turns).length + 1)) ∧
      after.get? name = some types ∧ (∀ other, other ≠ name → after.get? other = before.get? other) ∧
      after.length = before.length + (if before.contains name then 0 else 1) ∧
      ((choices self c turns).length + 1 < UInt32.size → before.contains name = true →
        some name ∈ choices self c turns) := by
  intro s before after
  have named : (s.tracing self).Named (choices self c turns) := foldl_take_named (begun_named begun)
  have received : receive s (.obj packet) = (Request.handle s packet).1 := Request.receive_eq packet up
  obtain ⟨host, -⟩ := Tracer.starts?_eq_some starts
  obtain ⟨same, id, types, known, handled⟩ := Tracer.starts_handled starts
  rw [unnamed] at same handled
  have silent : s.Silent ((Tracer.start self (s.tracing self) id none types).after s) :=
    (Act.Silent.steps s self (.trace host)).start _ _ _ _ s trivial
  have traces : after = (name, types) :: before.erase name := by
    change ((receive s (.obj packet)).tracing self).active = _
    rw [received, handled, Scene.Shrinks.tracing_write, Tracer.tracing_start, if_pos rfl, same]
    rfl
  refine ⟨types, known, ?_, ?_, ?_, fun other differs => ?_, ?_, fun few active => ?_⟩
  · rw [received, handled, (Request.sent_write _ (silent.line.trans up)).1, silent.sent]
    rfl
  · rw [same, ← named.next]
    rfl
  · rw [traces, Table.get?, if_pos rfl]
  · rw [traces, Table.get?, if_neg (Ne.symm differs), Table.get?_erase, if_neg (Ne.symm differs)]
  · rw [traces, same]
    exact Tracing.length_start named.keys none types
  · rw [same] at active ⊢
    exact named.chosen few active

/-- A client starts a trace by a name that it has chosen. -/
def naming (site : Site) (name : String) : List Turn :=
  [⟨site, .packet (.obj (request "conn0.trace2" "attach" []))⟩,
    ⟨site, .packet (.obj (request "conn0.trace2" "startTrace" [("name", .str name), ("trace", .strings ["name"])]))⟩]

/-- A trace that the client did not name, after one that it did. -/
theorem unnamed_start_second : ∃ (c : Connection) (turns : List Turn) (site : Site) (packet : Fields) (name : String),
    Begun c ∧ (turns.foldl take c).line = .up ∧
    Tracer.starts? ⟨site, turns.foldl take c⟩ "conn0.trace2" packet = some name ∧
    (packet.get? "name").bind Json.string? = none ∧
    let s : Scene := ⟨site, turns.foldl take c⟩
    (s.tracing "conn0.trace2").active.length = 1 ∧
    ((receive s (.obj packet)).tracing "conn0.trace2").active.length = 2 ∧
    ((receive s (.obj packet)).tracing "conn0.trace2").active.get? "mine" =
      (s.tracing "conn0.trace2").active.get? "mine" := by
  let site := onePage {}
  let turns := naming site "mine"
  let packet := request "conn0.trace2" "startTrace" [("trace", .strings ["time"])]
  have begun := begun_joined site
  have up : (turns.foldl take (joined site)).line = .up := by decide +kernel
  have starts : Tracer.starts? ⟨site, turns.foldl take (joined site)⟩ "conn0.trace2"
      packet = some "Trace 2" := by decide +kernel
  have before : (Scene.tracing ⟨site, turns.foldl take (joined site)⟩
      "conn0.trace2").active = [("mine", [.name])] := by decide +kernel
  obtain ⟨types, -, -, -, -, others, longer, -⟩ :=
    unnamed_start begun turns site "conn0.trace2" packet "Trace 2" up starts rfl
  refine ⟨_, turns, site, packet, "Trace 2", begun, up, starts, rfl, ?_, ?_, others "mine" (by decide)⟩
  · rw [before]
    rfl
  · rw [longer, before]
    rfl

/-- A client that has chosen the name that comes next: the trace that it then starts without a name takes the place of
the one it has, and what that one asked for is lost. -/
theorem unnamed_start_replaces : ∃ (c : Connection) (turns : List Turn) (site : Site) (packet : Fields),
    Begun c ∧ (turns.foldl take c).line = .up ∧
    Tracer.starts? ⟨site, turns.foldl take c⟩ "conn0.trace2" packet = some "Trace 2" ∧
    (packet.get? "name").bind Json.string? = none ∧
    let s : Scene := ⟨site, turns.foldl take c⟩
    (s.tracing "conn0.trace2").active = [("Trace 2", [.name])] ∧
    ((receive s (.obj packet)).tracing "conn0.trace2").active = [("Trace 2", [.time])] := by
  let site := onePage {}
  let turns := naming site "Trace 2"
  let packet := request "conn0.trace2" "startTrace" [("trace", .strings ["time"])]
  exact ⟨joined site, turns, site, packet, begun_joined site,
    by decide +kernel, by decide +kernel, rfl, by decide +kernel, by decide +kernel⟩

end Serve

end RemoteInspector
