import RemoteInspector.Proofs.Json.Fields
import RemoteInspector.Proofs.Serve.Steps
/-!
Frame packets: just the details that are wanted and that the frame has to offer.
-/
namespace RemoteInspector

namespace Tracer

def enterDetail? (site : Site) (f : LiveFrame) : TraceType → Option Json
  | .name => some (.str (frameName site f))
  | .callsite => f.location.map callsite
  | .time => some (.nat site.clock)
  | .parameterNames => f.callee.bind fun _ => f.parameters.map Json.strings
  | .arguments => f.arguments.map fun values =>
    let (_, grips, pool) := Pool.gripAll site values
    .object [("values", .arr grips), ("objectPool", .arr pool)]
  | .returned | .threw | .yielded => none

def popDetail? (site : Site) (completion : Completion Value) : TraceType → Option Json
  | .time => some (.nat site.clock)
  | type => (ending completion).bind fun (how, v) => if how = type then some (pooledValue site v).2 else none

theorem text_injective {type type' : TraceType} (same : type.text = type'.text) : type = type' := by
  cases type <;> cases type' <;> first | rfl | exact absurd same (by decide)

def details (t : Tracing) (offer : TraceType → Option Json) (types : List TraceType) : List (String × Json) :=
  types.flatMap fun type => detail t type (offer type)

theorem entered_eq (site : Site) (t : Tracing) (f : LiveFrame) : (entered site t f).2 =
    details t (enterDetail? site f) [.name, .callsite, .time, .parameterNames, .arguments] := by
  have arguments : (pooledArguments site t f).2 = detail t .arguments (enterDetail? site f .arguments) := by
    cases given : f.arguments with
    | none => simp [pooledArguments, detail, enterDetail?, given]
    | some values =>
      simp only [pooledArguments, detail, enterDetail?, given, Option.map_some, Option.toList_some]
      split <;> rfl
  simp only [details, List.flatMap_cons, List.flatMap_nil, List.append_nil, ← List.append_assoc, ← arguments]
  rfl

theorem exited_eq (site : Site) (t : Tracing) (completion : Completion Value) : (exited site t completion).2 =
    details t (popDetail? site completion) [.time, .returned, .threw, .yielded] := by
  have wanted (type : TraceType) (v : Value) (time : List (String × Json)) :
      (if t.wants type then ((pooledValue site v).1, time ++ [(type.text, (pooledValue site v).2)])
        else (site, time)).2 = time ++ detail t type (some (pooledValue site v).2) := by
    unfold detail
    split <;> simp
  unfold exited
  cases completion with
  | returned v => simpa [ending, popDetail?, details, detail] using wanted .returned v _
  | threw v => simpa [ending, popDetail?, details, detail] using wanted .threw v _
  | yielded v => simpa [ending, popDetail?, details, detail] using wanted .yielded v _
  | terminated => simp [ending, popDetail?, details, detail]

theorem get?_detail (t : Tracing) (offer : TraceType → Option Json) (type type' : TraceType) :
    (Fields.ofList (detail t type' (offer type'))).get? type.text =
      if type = type' ∧ t.wants type then offer type else none := by
  by_cases same : type = type'
  · subst same
    by_cases wanted : t.wants type
    · cases offered : offer type <;> simp [detail, wanted, Fields.get?_ofList]
    · rw [detail, if_neg wanted, if_neg fun both => wanted both.2]
      rfl
  · rw [if_neg fun both => same both.1]
    refine Fields.get?_ofList_eq_none fun m member named => ?_
    unfold detail at member
    split at member
    · obtain ⟨j, -, rfl⟩ := Option.map_eq_some_iff.mp (Option.mem_toList.mp member)
      exact same (text_injective named).symm
    · cases member

theorem get?_details (t : Tracing) (offer : TraceType → Option Json) (types : List TraceType) (type : TraceType) :
    (Fields.ofList (details t offer types)).get? type.text =
      if type ∈ types ∧ t.wants type then offer type else none := by
  induction types with
  | nil => simp only [List.not_mem_nil, false_and, if_false]; rfl
  | cons first rest ih =>
    change (Fields.ofList (detail t first (offer first) ++ details t offer rest)).get? _ = _
    rw [Fields.get?_ofList_append, ih, get?_detail]
    by_cases wanted : t.wants type
    · by_cases same : type = first
      · subst same
        by_cases later : type ∈ rest <;> simp [wanted, later]
      · simp [wanted, same]
    · simp [wanted]

theorem get?_packet {members : List (String × Json)} {type : TraceType} (tracer name : String) (number : Nat) :
    (Fields.ofList ([("from", .str tracer), ("type", .str name), ("sequence", .nat number)] ++ members)).get? type.text =
      (Fields.ofList members).get? type.text := by
  have plain : (Fields.ofList [("from", .str tracer), ("type", .str name), ("sequence", .nat number)]).get?
      type.text = none := by
    have other : ∀ key ∈ ["from", "type", "sequence"], key ≠ type.text := by cases type <;> decide
    refine Fields.get?_ofList_eq_none fun m member => other m.1 ?_
    exact List.mem_map_of_mem (f := Prod.fst) member
  rw [Fields.get?_ofList_append, plain, Option.or_none]

variable {s : Scene} {self : String}

theorem sent_report (up : s.conn.line = .up) (type : String) (details : Site → Tracing → Site × List (String × Json)) :
    ((report self type details).after s).conn.sent = s.conn.sent ++ [.object
      ([("from", .str self), ("type", .str type), ("sequence", .nat (s.tracing self).sequence)] ++
        (details s.site (s.tracing self)).2)] := by
  simp [report, claim, conclude, Scene.write, Scene.setSite, Scene.setTracing, Scene.setConn, up]

theorem onEnter_sends (up : s.conn.line = .up) (f : LiveFrame) :
    ∃ packet : Fields, ((onEnter self f).after s).conn.sent = s.conn.sent ++ [.obj packet] ∧
      ∀ type : TraceType, packet.get? type.text =
        if (s.tracing self).wants type then enterDetail? s.site f type else none := by
  refine ⟨_, sent_report up _ _, fun type => ?_⟩
  rw [get?_packet, entered_eq, get?_details]
  cases type <;> simp [enterDetail?]

theorem onPop_sends (up : s.conn.line = .up) (completion : Completion Value) :
    ∃ packet : Fields, ((onPop self completion).after s).conn.sent = s.conn.sent ++ [.obj packet] ∧
      ∀ type : TraceType, packet.get? type.text =
        if (s.tracing self).wants type then popDetail? s.site completion type else none := by
  refine ⟨_, sent_report up _ _, fun type => ?_⟩
  rw [get?_packet, exited_eq, get?_details]
  cases type <;> cases completion <;> simp [popDetail?, ending]

end Tracer

end RemoteInspector
