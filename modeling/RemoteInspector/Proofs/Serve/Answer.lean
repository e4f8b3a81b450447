import RemoteInspector.Proofs.Json.Fields
import RemoteInspector.Proofs.Serve.Silence
/-!
Every packet is answered once, by the handler's reply or a refusal, with the number of the request.
-/
namespace RemoteInspector

namespace Request

variable {actor : Actor} {act : Act Reply}

/-- Whom a packet is for; one that does not say so is for the root. -/
def addressee (packet : Fields) : String := ((packet.get? "to").bind Json.string?).getD Tabs.rootName

/-- A packet names a method that the schema of an actor lists. -/
def Names (packet : Fields) (actor : Actor) : Prop :=
  ∃ m ∈ actor.schema.methods, packet.get? "type" = some (.str m.name)

/-- The addressed actor is there, its schema accepts the packet, and its handler takes it on. -/
def Accepted (s : Scene) (packet : Fields) (act : Act Reply) : Prop :=
  ∃ actor type method, packet.get? "to" = some (.str (addressee packet)) ∧
    s.find? (addressee packet) = some actor ∧ packet.get? "type" = some (.str type) ∧
    actor.schema.check type packet = .ok method ∧
    decide s (addressee packet) method.name packet actor = .ok act

/-- A refusal that is not the server's own fault, and says that the method is unknown just where a
living actor has no such method. -/
def Refused (s : Scene) (packet : Fields) (r : Refusal) : Prop :=
  r ≠ .internal ∧ ∀ actor, packet.get? "to" = some (.str (addressee packet)) →
    s.find? (addressee packet) = some actor → (r = .unrecognizedPacketType ↔ ¬ Names packet actor)

/-- What a packet is answered, apart from its number. -/
inductive Outcome (s : Scene) (packet : Fields) : Json → Prop
  | reply {act : Act Reply} : Accepted s packet act →
      Outcome s packet (.object (("from", .str (addressee packet)) :: act.result s))
  | refused {r : Refusal} : Refused s packet r → Outcome s packet (r.packet (addressee packet))

variable {s : Scene} {packet : Fields}

/-! ### One packet is written -/

theorem string?_eq_some {j : Option Json} {text : String} : j.bind Json.string? = some text ↔ j = some (.str text) := by
  cases j with
  | none => simp
  | some j => cases j <;> simp [Json.string?]

theorem sent_write (answer : Json) (up : s.conn.line = .up) :
    (s.write answer).conn.sent = s.conn.sent ++ [answer] ∧ (s.write answer).conn.line = .up := by
  simp [Scene.write, up, Scene.setConn]

theorem perform_sent {self : String} {method : Method} (up : s.conn.line = .up) :
    (perform s packet self method actor).conn.sent = s.conn.sent ++
      [withId packet (match decide s self method.name packet actor with
        | .error r => r.packet self
        | .ok act => .object (("from", .str self) :: act.result s))] := by
  rw [perform_eq]
  cases decided : decide s self method.name packet actor with
  | error r => exact (sent_write _ up).1
  | ok act =>
    have silent : s.Silent (act.after s) :=
      (decide_answering Act.silent_law (Act.Silent.steps s self actor) decided).law s trivial
    have written := sent_write (withId packet (.object (("from", .str self) :: act.result s)))
      (silent.line.trans up)
    dsimp only
    split
    · rw [(Scene.Silent.release _ self).sent, written.1, silent.sent]
    · rw [written.1, silent.sent]

theorem handle_outcome (s : Scene) (packet : Fields) (up : s.conn.line = .up) :
    (handle s packet).2 = true ∧ ∃ answer, Outcome s packet answer ∧
      (handle s packet).1.conn.sent = s.conn.sent ++ [withId packet answer] := by
  have rejected {r : Refusal} (refused : Refused s packet r) :
      (reject s packet (addressee packet) r).2 = true ∧ ∃ answer, Outcome s packet answer ∧
        (reject s packet (addressee packet) r).1.conn.sent = s.conn.sent ++ [withId packet answer] :=
    ⟨by simp [reject, up], _, .refused refused, (sent_write _ up).1⟩
  unfold handle
  split
  · rename_i none_addressed
    have root : addressee packet = Tabs.rootName := by simp [addressee, none_addressed]
    rw [← root]
    refine rejected ⟨by simp, fun actor addressed => ?_⟩
    simp [addressed, Json.string?] at none_addressed
  · rename_i self addressed
    have self_eq : addressee packet = self := by simp [addressee, addressed]
    have addressed := string?_eq_some.mp addressed
    subst self_eq
    split
    · rename_i dead
      refine rejected ⟨by simp, fun actor _ live => ?_⟩
      simp [live] at dead
    · rename_i actor live
      -- From here on the actor is known, so a refusal is right if it names the method's fault.
      have refused {r : Refusal} (fair : r ≠ .internal) (blame : r = .unrecognizedPacketType ↔ ¬ Names packet actor) :
          Refused s packet r := by
        refine ⟨fair, fun other _ found => ?_⟩
        cases live.symm.trans found
        exact blame
      split
      · rename_i untyped
        refine rejected (refused (by simp) (iff_of_true rfl ?_))
        rintro ⟨m, _, typed⟩
        simp [typed, Json.string?] at untyped
      · rename_i type typed
        have typed := string?_eq_some.mp typed
        have names : Names packet actor ↔ type ∈ actor.schema.methods.map (·.name) := by
          simp [Names, typed, eq_comm]
        cases checked : actor.schema.check type packet with
        | error r =>
          refine rejected ?_
          by_cases listed : type ∈ actor.schema.methods.map (·.name)
          · have fair := Schema.check_fair listed r checked
            exact refused fair.1 (by simp [fair.2, names.mpr listed])
          · cases (Schema.check_unlisted listed).symm.trans checked
            exact refused (by simp) (by simp [mt names.mp listed])
        | ok method =>
          have found := List.find?_some (Schema.check_ok checked)
          have member := List.mem_of_find?_eq_some (Schema.check_ok checked)
          have listed : method.name ∈ actor.schema.methods.map (·.name) := List.mem_map_of_mem member
          have named : Names packet actor := names.mpr (by simpa using ⟨method, member, by simpa using found⟩)
          refine ⟨rfl, _, ?_, perform_sent up⟩
          cases decided : decide s (addressee packet) method.name packet actor with
          | error r =>
            have fair := decide_fair listed r decided
            exact .refused (refused fair.1 (by simp [fair.2, named]))
          | ok act => exact .reply ⟨actor, type, method, addressed, live, typed, checked, decided⟩

/-! ### The members of an answer -/

theorem withId_object (packet : Fields) (members : List (String × Json)) :
    ∃ answer : Fields, withId packet (.object members) = .obj answer ∧ ∀ key, answer.get? key =
      if key = "requestId" then (packet.get? "requestId").or ((Fields.ofList members).get? "requestId")
      else (Fields.ofList members).get? key := by
  unfold withId
  cases packet.get? "requestId" with
  | none =>
    refine ⟨Fields.ofList members, rfl, fun key => ?_⟩
    by_cases same : key = "requestId" <;> simp [same]
  | some id =>
    refine ⟨(Fields.ofList members).insert "requestId" id, rfl, fun key => ?_⟩
    rw [Fields.get?_insert]
    by_cases same : key = "requestId"
    · simp [same]
    · simp [same, Ne.symm same]

theorem keys_of_accepted (accepted : Accepted s packet act) : ∀ member ∈ act.result s, Reply.Key member.1 := by
  obtain ⟨actor, type, method, _, _, _, _, decided⟩ := accepted
  exact (decide_answering Act.silent_law (Act.Silent.steps s _ actor) decided).keys s

theorem Outcome.fields {answer : Json} (outcome : Outcome s packet answer) :
    ∃ fields : Fields, withId packet answer = .obj fields ∧
      fields.get? "from" = some (.str (addressee packet)) ∧
      fields.get? "requestId" = packet.get? "requestId" ∧
      ((∃ act, Accepted s packet act ∧ fields.get? "error" = none) ∨
        ∃ r, Refused s packet r ∧ fields.get? "error" = some (.str r.name)) := by
  cases outcome with
  | @reply act accepted =>
    have keys := keys_of_accepted accepted
    obtain ⟨fields, written, read⟩ :=
      withId_object packet (("from", .str (addressee packet)) :: act.result s)
    have absent (key : String) (reserved : key ≠ "from") (unused : ∀ m ∈ act.result s, m.1 ≠ key) :
        (Fields.ofList (("from", .str (addressee packet)) :: act.result s)).get? key = none :=
      Fields.get?_ofList_eq_none (by simpa [Ne.symm reserved] using fun k v m => unused (k, v) m)
    refine ⟨fields, written, ?_, ?_, .inl ⟨act, accepted, ?_⟩⟩
    · rw [read, if_neg (by decide)]
      exact Fields.get?_ofList_cons _ fun m member => (keys m member).1
    · rw [read, if_pos rfl, absent _ (by decide) fun m member => (keys m member).2.1, Option.or_none]
    · rw [read, if_neg (by decide), absent _ (by decide) fun m member => (keys m member).2.2]
  | @refused r refused =>
    obtain ⟨fields, written, read⟩ := withId_object packet
      [("from", .str (addressee packet)), ("error", .str r.name), ("message", .str r.message)]
    refine ⟨fields, written, ?_, ?_, .inr ⟨r, refused, ?_⟩⟩ <;> rw [read] <;>
      simp [Fields.get?_ofList]

theorem name_eq_unrecognized {r : Refusal} : r.name = "unrecognizedPacketType" ↔ r = .unrecognizedPacketType := by
  cases r <;> simp [Refusal.name]

theorem name_ne_internal {r : Refusal} (fair : r ≠ .internal) : r.name ≠ "internal" := by
  cases r <;> simp_all [Refusal.name]

theorem Accepted.names (accepted : Accepted s packet act) (live : s.find? (addressee packet) = some actor) :
    Names packet actor := by
  obtain ⟨other, type, method, _, found, typed, checked, _⟩ := accepted
  cases live.symm.trans found
  have member := List.mem_of_find?_eq_some (Schema.check_ok checked)
  have named : method.name = type := by simpa using List.find?_some (Schema.check_ok checked)
  exact ⟨method, member, named ▸ typed⟩

/-- With the line up, every packet is answered by exactly one packet: from the one it is addressed to,
with its number if it has one, and either the reply of the handler or a refusal. Nothing internal goes
wrong, and a living actor does not know the type of a packet just if its schema has no such method. -/
theorem handle_answers_once (s : Scene) (packet : Fields) (up : s.conn.line = .up) :
    (handle s packet).2 = true ∧ ∃ answer : Fields,
      (handle s packet).1.conn.sent = s.conn.sent ++ [.obj answer] ∧
      answer.get? "from" = some (.str (addressee packet)) ∧
      answer.get? "requestId" = packet.get? "requestId" ∧
      ((∃ act, Accepted s packet act ∧ .obj answer =
          withId packet (.object (("from", .str (addressee packet)) :: act.result s))) ∨
        ∃ r : Refusal, .obj answer = withId packet (r.packet (addressee packet))) ∧
      answer.get? "error" ≠ some (.str "internal") ∧
      ∀ actor, packet.get? "to" = some (.str (addressee packet)) →
        s.find? (addressee packet) = some actor →
        (answer.get? "error" = some (.str "unrecognizedPacketType") ↔ ¬ Names packet actor) := by
  obtain ⟨goOn, answer, outcome, sent⟩ := handle_outcome s packet up
  obtain ⟨fields, written, sender, number, kind⟩ := outcome.fields
  refine ⟨goOn, fields, written ▸ sent, sender, number, ?_, ?_⟩
  · cases outcome with
    | reply accepted => exact .inl ⟨_, accepted, written.symm⟩
    | refused refused => exact .inr ⟨_, written.symm⟩
  · rcases kind with ⟨act, accepted, none_given⟩ | ⟨r, ⟨fair, blame⟩, given⟩
    · refine ⟨by simp [none_given], fun actor _ live => ?_⟩
      simp [none_given, accepted.names live]
    · refine ⟨by simpa [given] using name_ne_internal fair, fun actor addressed live => ?_⟩
      rw [given, ← blame actor addressed live, ← name_eq_unrecognized]
      simp

/-- The root, asked for something it does not know. -/
theorem handle_answers_once_root :
    let s : Scene := ⟨{}, { id := 0, registry := { entries := [⟨"root", none, .root {}⟩] } }⟩
    let packet : Fields := [("requestId", .nat 7), ("to", .str "root"), ("type", .str "listPages")]
    s.conn.line = .up ∧ ∃ answer : Fields, (handle s packet).1.conn.sent = [.obj answer] ∧
      answer.get? "from" = some (.str "root") ∧ answer.get? "requestId" = some (.nat 7) ∧
      answer.get? "error" = some (.str "unrecognizedPacketType") := by
  intro s packet
  obtain ⟨_, answer, sent, sender, number, _, _, unknown⟩ := handle_answers_once s packet rfl
  refine ⟨rfl, answer, sent, sender, number, (unknown _ rfl rfl).mpr ?_⟩
  simp [Names, Actor.schema, Schema.root, packet, Fields.get?, Table.get?]

/-! ### The scene after a packet -/

/-- The handler that takes a request on. -/
structure Taken (s : Scene) (packet : Fields) (own : String) (actor : Actor) (method : Method)
    (act : Act Reply) : Prop where
  addressed : packet.get? "to" = some (.str own)
  live : s.find? own = some actor
  checked : ∃ type, packet.get? "type" = some (.str type) ∧ actor.schema.method? type = some method
  decided : decide s own method.name packet actor = .ok act

/-- What a request leaves behind: a refusal, or the handler's reply after what the handler did. -/
theorem handle_cases (s : Scene) (packet : Fields) (up : s.conn.line = .up) :
    (handle s packet).2 = true ∧
      ((∃ self r, (handle s packet).1 = s.write (withId packet (Refusal.packet r self))) ∨
        ∃ self actor method act, Taken s packet self actor method act ∧
          let written := (act.after s).write (withId packet (.object (("from", .str self) :: act.result s)))
          (handle s packet).1 = if method.release then written.release self else written) := by
  have rejected (self : String) (r : Refusal) : (reject s packet self r).2 = true := by simp [reject, up]
  unfold handle
  split
  · exact ⟨rejected _ _, .inl ⟨_, _, rfl⟩⟩
  · rename_i self addressed
    split
    · exact ⟨rejected _ _, .inl ⟨_, _, rfl⟩⟩
    · rename_i actor live
      split
      · exact ⟨rejected _ _, .inl ⟨_, _, rfl⟩⟩
      · rename_i type typed
        cases checked : actor.schema.check type packet with
        | error r => exact ⟨rejected _ _, .inl ⟨_, _, rfl⟩⟩
        | ok method =>
          refine ⟨rfl, ?_⟩
          dsimp only
          rw [perform_eq]
          cases decided : decide s self method.name packet actor with
          | error r => exact .inl ⟨self, r, rfl⟩
          | ok act =>
            refine .inr ⟨self, actor, method, act, ⟨string?_eq_some.mp addressed, live,
              ⟨type, string?_eq_some.mp typed, Schema.check_ok checked⟩, decided⟩, ?_⟩
            have silent : s.Silent (act.after s) :=
              (decide_answering Act.silent_law (Act.Silent.steps s self actor) decided).law s trivial
            have still := (sent_write (s := act.after s)
              (withId packet (.object (("from", .str self) :: act.result s))) (silent.line.trans up)).2
            simp [still]

theorem handle_decided {self type : String} {actor : Actor} {method : Method} {act : Act Reply}
    (addressed : packet.get? "to" = some (.str self)) (live : s.find? self = some actor)
    (typed : packet.get? "type" = some (.str type)) (checked : actor.schema.check type packet = .ok method)
    (stays : method.release = false) (decided : decide s self method.name packet actor = .ok act) :
    handle s packet = ((act.after s).write (withId packet (.object (("from", .str self) :: act.result s))), true) := by
  simp only [handle, addressed, typed, Option.bind_some, Json.string?, live, checked, perform_eq, decided, stays,
    Bool.false_and, Bool.false_eq_true, if_false]

theorem Taken.sent {self : String} {method : Method} (taken : Taken s packet self actor method act)
    (up : s.conn.line = .up) :
    let reply := withId packet (.object (("from", .str self) :: act.result s))
    let written := (act.after s).write reply
    (if method.release then written.release self else written).conn.sent = s.conn.sent ++ [reply] := by
  have silent := (decide_answering Act.silent_law (Act.Silent.steps s self actor) taken.decided).law s trivial
  have written := (sent_write (withId packet (.object (("from", .str self) :: act.result s)))
    (silent.line.trans up)).1
  dsimp only
  rw [← silent.sent, ← written]
  split
  · exact (Scene.Silent.release _ self).sent
  · rfl

theorem receive_eq (packet : Fields) (up : s.conn.line = .up) :
    Serve.receive s (.obj packet) = (handle s packet).1 := by
  simp [Serve.receive, (handle_cases s packet up).1]

theorem write_eq (answer : Json) (up : s.conn.line = .up) :
    s.write answer = { s with conn := { s.conn with sent := s.conn.sent ++ [answer] } } := by
  simp [Scene.write, up, Scene.setConn]

/-- A packet that is answered by an error leaves everything as it was: the registry and the state of
every actor, the documents of the hosts, their observers and debuggers. -/
theorem error_changes_nothing (s : Scene) (packet : Fields) (up : s.conn.line = .up) :
    ∃ answer : Fields, (Serve.receive s (.obj packet)).conn.sent = s.conn.sent ++ [.obj answer] ∧
      (answer.contains "error" = true → Serve.receive s (.obj packet) =
        { s with conn := { s.conn with sent := s.conn.sent ++ [.obj answer] } }) := by
  rw [receive_eq packet up]
  rcases (handle_cases s packet up).2 with ⟨self, r, left⟩ | ⟨self, actor, method, act, taken, left⟩
  · obtain ⟨answer, formed, -⟩ := withId_object packet
      [("from", .str self), ("error", .str r.name), ("message", .str r.message)]
    have written : (handle s packet).1 = s.write (.obj answer) := by
      rw [left, ← formed]
      rfl
    rw [written, write_eq _ up]
    exact ⟨answer, rfl, fun _ => rfl⟩
  · -- a handler that takes the packet on gives a reply without that member
    have answering := decide_answering Act.silent_law (Act.Silent.steps s self actor) taken.decided
    obtain ⟨answer, formed, read⟩ := withId_object packet (("from", .str self) :: act.result s)
    have plain : answer.get? "error" = none := by
      rw [read, if_neg (by decide)]
      apply Fields.get?_ofList_eq_none
      intro member listed
      rcases List.mem_cons.mp listed with rfl | listed
      · exact (by decide : "from" ≠ "error")
      · exact (answering.keys s member listed).2.2
    refine ⟨answer, ?_, fun failed => ?_⟩
    · rw [left, taken.sent up, formed]
    · have there : (answer.get? "error").isSome = true := failed
      rw [plain] at there
      cases there

/-- A walker with a node, asked for a page both around that node and from it on. -/
theorem error_changes_nothing_page :
    let d : Dom := { nodes := [(1, { kind := 9, children := [2] }), (2, { kind := 1, parent := some 1 })] }
    let node := Json.str "conn0.domnode2"
    let s : Scene := ⟨{ hosts := [("host", { dom := d })] }, { id := 0, registry := { next := 3, entries := [
      ⟨"root", none, .root {}⟩,
      ⟨"conn0.domwalker1", some "root", .walker { host := "host", root := 1, known := [(1, "conn0.domnode2")] }⟩,
      ⟨"conn0.domnode2", some "conn0.domwalker1", .node ⟨"host", "conn0.domwalker1", 1, none⟩⟩] } }⟩
    let packet : Fields := [("center", node), ("node", node), ("start", node), ("to", .str "conn0.domwalker1"),
      ("type", .str "children")]
    s.conn.line = .up ∧ ∃ answer : Fields, answer.get? "error" = some (.str "badParameterType") ∧
      Serve.receive s (.obj packet) = { s with conn := { s.conn with sent := [.obj answer] } } := by
  intro d node s packet
  obtain ⟨answer, sent, same⟩ := error_changes_nothing s packet rfl
  have said : (Serve.receive s (.obj packet)).conn.sent = [.obj [("error", .str "badParameterType"),
      ("from", .str "conn0.domwalker1"),
      ("message", .str "Can't specify both 'center' and 'start' options.")]] := rfl
  cases said.symm.trans sent
  exact ⟨rfl, _, rfl, same rfl⟩

end Request

end RemoteInspector
