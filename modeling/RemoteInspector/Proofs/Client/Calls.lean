import RemoteInspector.Client.ServerEnd
import RemoteInspector.Proofs.Inspector.Requests
import RemoteInspector.Proofs.Serve.Answer
import RemoteInspector.Proofs.Server.Runs
/-!
A call from end to end: it is refused and changes nothing, or the handler's reply comes back.
-/
namespace RemoteInspector

/-! ### Steps that may fail -/

namespace Trial

variable {σ α β : Type}

/-- What comes of a step that may fail. -/
def result (act : ExceptT ClientError (StateM σ) α) (s : σ) : Except ClientError α := (act.run.run s : Id _).1

/-- The state it leaves, whatever comes of it. -/
def after (act : ExceptT ClientError (StateM σ) α) (s : σ) : σ := (act.run.run s : Id _).2

variable {x : ExceptT ClientError (StateM σ) α} {f : α → ExceptT ClientError (StateM σ) β} {s : σ}

theorem bind_ok {a : α} (done : result x s = .ok a) :
    result (x >>= f) s = result (f a) (after x s) ∧ after (x >>= f) s = after (f a) (after x s) := by
  have run : (x.run.run s : Id _) = (.ok a, after x s) := Prod.ext done rfl
  have next : ((x >>= f).run.run s : Id _) = ((f a).run.run (after x s) : Id _) := by
    change (ExceptT.bindCont f (x.run.run s : Id _).1).run (x.run.run s : Id _).2 = _
    rw [run]
    rfl
  exact ⟨congrArg Prod.fst next, congrArg Prod.snd next⟩

theorem bind_error {e : ClientError} (failed : result x s = .error e) :
    result (x >>= f) s = .error e ∧ after (x >>= f) s = after x s := by
  have run : (x.run.run s : Id _) = (.error e, after x s) := Prod.ext failed rfl
  have next : ((x >>= f).run.run s : Id _) = (.error e, after x s) := by
    change (ExceptT.bindCont f (x.run.run s : Id _).1).run (x.run.run s : Id _).2 = _
    rw [run]
    rfl
  exact ⟨congrArg Prod.fst next, congrArg Prod.snd next⟩

/-! Requests and their replies. -/

theorem get_link {π : Type} (l : Link π) : result (get : Calling π (Link π)) l = .ok l := rfl

theorem wait_answered {π : Type} {l : Link π} {id : RequestId} {outcome : Except ClientError Fields}
    (fate : l.client.fate id = .answered outcome) :
    result (Calling.wait id) l = outcome ∧ after (Calling.wait id) l = l := by
  rw [Calling.wait, (bind_ok (get_link l)).1, (bind_ok (get_link l)).2, fate]
  cases outcome <;> exact ⟨rfl, rfl⟩

variable {π : Type} [Peer π] {l : Link π}

theorem request_ok {packet numbered : Fields} {client : Client} {id : RequestId}
    (entered : l.client.request packet none = (client, .ok (id, numbered))) :
    result (Calling.request packet) l = .ok id ∧ after (Calling.request packet) l =
      Link.deliver ⟨client, (Peer.receive l.peer numbered).1⟩ (Peer.receive l.peer numbered).2.1
        (Peer.receive l.peer numbered).2.2 := by
  rw [Calling.request, (bind_ok (get_link l)).1, (bind_ok (get_link l)).2, entered]
  exact ⟨rfl, rfl⟩

theorem request_error {packet : Fields} {client : Client} {e : ClientError}
    (refused : l.client.request packet none = (client, .error e)) :
    result (Calling.request packet) l = .error e ∧ after (Calling.request packet) l = l := by
  rw [Calling.request, (bind_ok (get_link l)).1, (bind_ok (get_link l)).2, refused]
  exact ⟨rfl, rfl⟩

end Trial

/-! ### Servers -/

theorem ServerEnd.collect_eq {e : ServerEnd} {conn : Connection}
    (found : e.server.connection? e.connection = some conn) :
    ∃ e' : ServerEnd, e.collect = (e', conn.sent, !conn.isOpen) ∧ e'.connection = e.connection ∧
      e'.server.connection? e'.connection = some { conn with sent := [] } ∧ e'.server.site = e.server.site := by
  obtain ⟨kept, site⟩ := Server.onConnection_eq (v := e.server) found
    (f := fun s => s.setConn fun c => { c with sent := [] }) rfl rfl
  unfold collect
  rw [found]
  exact ⟨_, rfl, rfl, kept, site⟩

/-! ### The packet of a call -/

namespace Method

variable {m : Method} {target : String} {arguments packet : Fields} {key : String} {value : Json}

def argue (arguments packet : Fields) (p : Parameter) : Fields :=
  match arguments.get? p.name with
  | some j => packet.insert p.name (p.shape.write j)
  | none => packet

/-- Every argument is for a parameter. -/
def Covers (m : Method) (arguments : Fields) : Prop := ∀ key ∈ arguments.keys, ∃ p ∈ m.request, p.name = key

theorem write_ok_iff : m.write target arguments = .ok packet ↔ m.Covers arguments ∧
    m.request.foldl (argue arguments) (Fields.ofList [("to", .str target), ("type", .str m.name)]) = packet ∧
    m.check packet = .ok () := by
  unfold write
  split
  · rename_i key value unknown
    have stray := List.find?_some unknown
    have member := List.mem_of_find?_eq_some unknown
    refine iff_of_false nofun fun ⟨covers, _⟩ => ?_
    obtain ⟨p, listed, named⟩ := covers key (List.mem_map_of_mem member)
    simp only [Bool.not_eq_true', List.any_eq_false, decide_eq_true_eq] at stray
    exact stray p listed named
  · rename_i known
    have covers : m.Covers arguments := by
      intro key member
      obtain ⟨a, given, rfl⟩ := List.mem_map.mp member
      simpa using List.find?_eq_none.mp known a given
    refine ⟨fun written => ?_, fun ⟨_, same, checked⟩ => ?_⟩
    · obtain ⟨_, checked, written⟩ := Decision.bind_ok written
      cases written
      exact ⟨covers, rfl, checked⟩
    · subst same
      exact congrArg (· >>= fun _ => pure _) checked

theorem get?_argue_ne {p : Parameter} (other : p.name ≠ key) :
    (argue arguments packet p).get? key = packet.get? key := by
  unfold argue
  split
  · rw [Fields.get?_insert, if_neg other]
  · rfl

theorem get?_foldl_argue (parameters : List Parameter)
    (there : (parameters.foldl (argue arguments) packet).get? key = some value) :
    packet.get? key = some value ∨
      ∃ p ∈ parameters, p.name = key ∧ ∃ j, arguments.get? key = some j ∧ value = p.shape.write j := by
  induction parameters generalizing packet with
  | nil => exact .inl there
  | cons p rest ih =>
    rcases ih there with before | ⟨q, member, named, given⟩
    · by_cases same : p.name = key
      · subst same
        unfold argue at before
        split at before
        · rename_i j given
          rw [Fields.get?_insert, if_pos rfl] at before
          cases before
          exact .inr ⟨p, by simp, rfl, j, given, rfl⟩
        · exact .inl before
      · exact .inl ((get?_argue_ne same).symm.trans before)
    · exact .inr ⟨q, by simp [member], named, given⟩

theorem get?_foldl_argue_ne (parameters : List Parameter) (other : ∀ p ∈ parameters, p.name ≠ key) :
    (parameters.foldl (argue arguments) packet).get? key = packet.get? key := by
  induction parameters generalizing packet with
  | nil => rfl
  | cons p rest ih =>
    exact (ih fun q member => other q (by simp [member])).trans (get?_argue_ne (other p (by simp)))

theorem get?_write (written : m.write target arguments = .ok packet) (there : packet.get? key = some value) :
    (Fields.ofList [("to", .str target), ("type", .str m.name)]).get? key = some value ∨
      ∃ p ∈ m.request, p.name = key ∧ ∃ j, arguments.get? key = some j ∧ value = p.shape.write j := by
  obtain ⟨_, rfl, _⟩ := write_ok_iff.mp written
  exact get?_foldl_argue _ there

theorem get?_write_ne (written : m.write target arguments = .ok packet) (other : ∀ p ∈ m.request, p.name ≠ key) :
    packet.get? key = (Fields.ofList [("to", .str target), ("type", .str m.name)]).get? key := by
  obtain ⟨_, rfl, _⟩ := write_ok_iff.mp written
  exact get?_foldl_argue_ne _ other

end Method

/-! ### Links -/

theorem Scene.Silent.isOpen {s t : Scene} (silent : s.Silent t) : t.conn.isOpen = s.conn.isOpen := by
  rw [Connection.isOpen, Connection.isOpen, silent.stage]

/-- The scene on the other side of a link, while nothing is under way. -/
structure Link.Quiet (l : Link ServerEnd) (s : Scene) : Prop where
  conn : l.peer.server.connection? l.peer.connection = some s.conn
  site : l.peer.server.site = s.site
  isOpen : s.conn.isOpen = true
  up : s.conn.line = .up
  sent : s.conn.sent = []
  mail : s.site.mail = []
  listening : l.client.closed = false

theorem Client.receive_answer {c : Client} {id : RequestId} {answer : Fields} (listening : c.closed = false)
    (waiting : id ∈ c.pending) (numbered : answer.get? "requestId" = some (.nat id)) :
    (c.receive (.obj answer)).fate id = .answered (outcomeOf answer) ∧ (c.receive (.obj answer)).closed = false := by
  simp [receive, listening, dispatch, numbered, Json.nat, Json.natural?, takePending, waiting, Client.answer, fate,
    Table.get?_insert]

def Link.numbered (l : Link ServerEnd) (packet : Fields) : Fields :=
  packet.insert "requestId" (.nat l.client.nextRequest)

theorem Link.get?_numbered_ne {l : Link ServerEnd} {packet : Fields} {key : String} (other : key ≠ "requestId") :
    (l.numbered packet).get? key = packet.get? key := by
  rw [Link.numbered, Fields.get?_insert, if_neg (Ne.symm other)]

theorem Request.handle_taken {s : Scene} {packet : Fields} {self : String} {actor : Actor} {method : Method}
    {act : Act Reply} (up : s.conn.line = .up) (taken : Taken s packet self actor method act)
    (fits : method.check packet = .ok ()) :
    handle s packet =
      (let written := (act.after s).write (withId packet (.object (("from", .str self) :: act.result s)))
      if method.release then written.release self else written, true) := by
  obtain ⟨type, typed, listed⟩ := taken.checked
  have checked := Schema.check_of listed fits
  have silent : s.Silent (act.after s) :=
    (decide_answering Act.silent_law (Act.Silent.steps s self actor) taken.decided).law s trivial
  have still := (sent_write (s := act.after s)
    (withId packet (.object (("from", .str self) :: act.result s))) (silent.line.trans up)).2
  simp only [handle, taken.addressed, typed, Option.bind_some, Json.string?, taken.live, checked, perform_eq,
    taken.decided]
  simp [still]

namespace Link.Quiet

variable {sender : String}

variable {l : Link ServerEnd} {s t : Scene} {packet : Fields} {self : String}

theorem receive (quiet : l.Quiet s) {answer : Json}
    (handled : Request.handle s packet = (t.write answer, true)) (silent : s.Silent t) (mail : t.site.mail = []) :
    ∃ e : ServerEnd, Peer.receive l.peer packet = (e, [answer], false) ∧ e.connection = l.peer.connection ∧
      e.server.connection? e.connection = some t.conn ∧ e.server.site = t.site := by
  have up := silent.line.trans quiet.up
  have sent : t.conn.sent = [] := silent.sent.trans quiet.sent
  have isOpen : t.conn.isOpen = true := silent.isOpen.trans quiet.isOpen
  have work : (fun s : Scene => if s.conn.isOpen then Serve.receive s (.obj packet) else s)
      ⟨l.peer.server.site, s.conn⟩ = t.write answer := by
    rw [quiet.site]
    simp [quiet.isOpen, Serve.receive, handled]
  have written : t.write answer = ⟨t.site, { t.conn with sent := [answer] }⟩ := by
    simp [Scene.write, up, Scene.setConn, sent]
  rw [written] at work
  obtain ⟨conn, site⟩ := Server.onConnection_eq
    (f := fun s => if s.conn.isOpen then Serve.receive s (.obj packet) else s) quiet.conn work silent.id
  have settled := Server.settle_eq ((congrArg Site.mail site).trans mail)
  obtain ⟨e, collected, same, kept, site'⟩ := ServerEnd.collect_eq
    (e := { l.peer with server := l.peer.server.receive l.peer.connection (.obj packet) }) (by
      rw [Server.receive, settled]
      exact conn)
  refine ⟨e, ?_, same, ?_, ?_⟩
  · refine collected.trans ?_
    simp [Connection.isOpen] at isOpen ⊢
    exact isOpen
  · rw [kept, ← sent]
  · rw [site', Server.receive, settled]
    exact site

theorem answered (quiet : l.Quiet s) {answer : Fields}
    (handled : Request.handle s (l.numbered packet) = (t.write (.obj answer), true)) (silent : s.Silent t)
    (mail : t.site.mail = []) (numbered : answer.get? "requestId" = some (.nat l.client.nextRequest))
    (addressed : packet.get? "to" = some (.str self)) :
    Trial.result (Calling.call packet) l = Client.outcomeOf answer ∧ (Trial.after (Calling.call packet) l).Quiet t := by
  let entered : Client := { l.client with
    nextRequest := l.client.nextRequest + 1
    pending := l.client.pending ++ [l.client.nextRequest]
    queues := l.client.queues.insert self (l.client.queue self ++ [l.client.nextRequest]) }
  have request : l.client.request packet none = (entered, .ok (l.client.nextRequest, l.numbered packet)) := by
    simp [Client.request, Client.enter, addressed, Json.string?, quiet.listening, entered, Link.numbered]
  obtain ⟨e, received, same, conn, site⟩ := quiet.receive handled silent mail
  let l' : Link ServerEnd := ⟨entered.receive (.obj answer), e⟩
  obtain ⟨asked, there⟩ := Trial.request_ok request
  rw [received] at there
  obtain ⟨fate, listening⟩ := Client.receive_answer (c := entered) quiet.listening
    (List.mem_append_right _ (List.mem_singleton_self _)) numbered
  obtain ⟨replied, last⟩ := Trial.wait_answered (l := l') fate
  obtain ⟨result, after⟩ := Trial.bind_ok (f := Calling.wait) asked
  rw [show Trial.after (Calling.request packet) l = l' from there] at result after
  refine ⟨result.trans replied, ?_⟩
  rw [show Trial.after (Calling.call packet) l = l' from after.trans last]
  exact ⟨conn, site, silent.isOpen.trans quiet.isOpen, silent.line.trans quiet.up, silent.sent.trans quiet.sent, mail, listening⟩

theorem write_of_method {f : Front} {m : Method} {arguments : Fields} (found : f.schema.method? m.name = some m)
    (written : m.write f.actor arguments = .ok packet) : f.write m.name arguments = .ok packet := by
  simp only [Front.write, found, written]

theorem call_of_write {f : Front} {method : String} {arguments : Fields}
    (written : f.write method arguments = .ok packet) :
    (f.call method arguments : Calling ServerEnd Fields) = Calling.call packet := by
  unfold Front.call Front.request
  rw [written]
  rfl

theorem call_of_refusal {f : Front} {method : String} {arguments : Fields} {e : ClientError}
    (refused : f.write method arguments = .error e) :
    (f.call method arguments : Calling ServerEnd Fields) = throw e := by
  unfold Front.call Front.request
  rw [refused]
  rfl

theorem get?_numbered : (l.numbered packet).get? "requestId" = some (.nat l.client.nextRequest) := by
  simp [numbered, Fields.get?_insert]

section

variable (quiet : l.Quiet s)

include quiet

theorem unaddressed (nobody : (packet.get? "to").bind Json.string? = none) :
    ∃ e, Trial.result (Calling.call packet) l = .error e ∧ (Trial.after (Calling.call packet) l).Quiet s := by
  have request : l.client.request packet none = (l.client, .error (.malformed .noDestination)) := by
    simp [Client.request, Client.enter, nobody]
  obtain ⟨refused, kept⟩ := Trial.request_error request
  obtain ⟨result, after⟩ := Trial.bind_error (f := Calling.wait) refused
  have there : Trial.after (Calling.call packet) l = l := after.trans kept
  exact ⟨_, result, there.symm ▸ quiet⟩

theorem refused (addressed : packet.get? "to" = some (.str self)) {r : Refusal}
    (handled : Request.handle s (l.numbered packet) = (s.write (Request.withId (l.numbered packet) (r.packet sender)), true)) :
    ∃ e, Trial.result (Calling.call packet) l = .error e ∧ (Trial.after (Calling.call packet) l).Quiet s := by
  obtain ⟨answer, formed, read⟩ := Request.withId_object (l.numbered packet)
    [("from", .str sender), ("error", .str r.name), ("message", .str r.message)]
  obtain ⟨result, still⟩ := quiet.answered (handled.trans (by rw [← formed]; rfl)) (.refl s) quiet.mail
    (by rw [read, if_pos rfl, get?_numbered, Option.some_or]) addressed
  have error : answer.get? "error" = some (.str r.name) := by
    rw [read, if_neg (by decide)]
    simp [Fields.get?_ofList]
  rw [Client.outcomeOf, error, Option.bind_some, Json.string?] at result
  exact ⟨_, result, still⟩

theorem replied (addressed : packet.get? "to" = some (.str self)) {actor : Actor} {method : Method} {act : Act Reply}
    (taken : Request.Taken s (l.numbered packet) sender actor method act) (silent : s.Silent t)
    (mail : t.site.mail = [])
    (handled : Request.handle s (l.numbered packet) = (t.write (Request.withId (l.numbered packet) (.object (("from", .str sender) :: act.result s))), true))
    :
    ∃ reply, Trial.result (Calling.call packet) l = .ok reply ∧ Reply.Sent (act.result s) reply ∧
      (Trial.after (Calling.call packet) l).Quiet t := by
  have keys := (Request.decide_answering Act.silent_law (Act.Silent.steps s sender actor) taken.decided).keys s
  obtain ⟨answer, formed, read⟩ := Request.withId_object (l.numbered packet)
    (("from", .str sender) :: act.result s)
  obtain ⟨result, still⟩ := quiet.answered (handled.trans (by rw [formed])) silent mail
    (by rw [read, if_pos rfl, get?_numbered, Option.some_or]) addressed
  have rest (key : String) (other : key ≠ "from") :
      (Fields.ofList (("from", .str sender) :: act.result s)).get? key =
        (Fields.ofList (act.result s)).get? key := by
    have absent : (Fields.ofList [("from", Json.str sender)]).get? key = none :=
      Fields.get?_ofList_eq_none (by simpa using Ne.symm other)
    rw [← List.singleton_append, Fields.get?_ofList_append, absent, Option.or_none]
  have error : answer.get? "error" = none := by
    rw [read, if_neg (by decide), rest "error" (by decide)]
    exact Fields.get?_ofList_eq_none fun member listed => (keys member listed).2.2
  rw [Client.outcomeOf, error, Option.bind_none] at result
  refine ⟨answer, result, fun key other other' => ?_, still⟩
  rw [read, if_neg other', rest key other]

theorem performed (addressed : packet.get? "to" = some (.str self)) {actor : Actor} {method : Method}
    {act : Act Reply} (taken : Request.Taken s (l.numbered packet) sender actor method act)
    (mail : (act.after s).site.mail = [])
    (handled : Request.handle s (l.numbered packet) = ((act.after s).write (Request.withId (l.numbered packet) (.object (("from", .str sender) :: act.result s))), true))
    :
    ∃ reply, Trial.result (Calling.call packet) l = .ok reply ∧ Reply.Sent (act.result s) reply ∧
      (Trial.after (Calling.call packet) l).Quiet (act.after s) :=
  quiet.replied addressed taken
    ((Request.decide_answering Act.silent_law (Act.Silent.steps s sender actor) taken.decided).law s trivial)
    mail handled

/-- A call fails and leaves everything as it was, or a handler takes it on and its reply comes back. -/
theorem call_cases (f : Front) (method : String) (arguments : Fields) :
    (∃ e, Trial.result (f.call method arguments) l = .error e ∧
      (Trial.after (f.call method arguments) l).Quiet s) ∨
    ∃ m packet, f.schema.method? method = some m ∧ m.write f.actor arguments = .ok packet ∧
      ∃ sender actor method' act, Request.Taken s (l.numbered packet) sender actor method' act ∧
        (method'.release = false → (act.after s).site.mail = [] →
          ∃ reply, Trial.result (f.call method arguments) l = .ok reply ∧ Reply.Sent (act.result s) reply ∧
            (Trial.after (f.call method arguments) l).Quiet (act.after s)) := by
  cases written : f.write method arguments with
  | error e =>
    rw [call_of_refusal written]
    exact .inl ⟨e, rfl, quiet⟩
  | ok packet =>
    rw [call_of_write written]
    obtain ⟨m, listed, ready⟩ : ∃ m, f.schema.method? method = some m ∧ m.write f.actor arguments = .ok packet := by
      unfold Front.write at written
      split at written
      · cases written
      · rename_i m listed
        split at written
        · rename_i packet' ready
          cases written
          exact ⟨m, listed, ready⟩
        · cases written
    cases addressed : (packet.get? "to").bind Json.string? with
    | none => exact .inl (quiet.unaddressed addressed)
    | some self =>
      have addressed := Request.string?_eq_some.mp addressed
      obtain ⟨goesOn, outcome⟩ := Request.handle_cases s (l.numbered packet) quiet.up
      rcases outcome with ⟨sender, r, left⟩ | ⟨sender, actor, method', act, taken, left⟩
      · exact .inl (quiet.refused addressed (Prod.ext left goesOn))
      · refine .inr ⟨m, packet, listed, ready, sender, actor, method', act, taken, fun plain mail => ?_⟩
        dsimp only at left
        rw [plain, if_neg Bool.false_ne_true] at left
        exact quiet.performed addressed taken mail (Prod.ext left goesOn)

end

section

variable {f : Front} {method : String} {arguments : Fields} {actor : Actor} {m : Method} {act : Act Reply}

section

variable (quiet : l.Quiet s) (written : f.write method arguments = .ok packet)
  (taken : Request.Taken s (l.numbered packet) self actor m act) (fits : m.check (l.numbered packet) = .ok ())

include quiet written taken fits

theorem call_taken (stays : m.release = false) (mail : (act.after s).site.mail = []) :
    ∃ reply, Trial.result (f.call method arguments) l = .ok reply ∧ Reply.Sent (act.result s) reply ∧
      (Trial.after (f.call method arguments) l).Quiet (act.after s) := by
  have addressed : packet.get? "to" = some (.str self) := by
    rw [← get?_numbered_ne (by decide)]
    exact taken.addressed
  have handled := Request.handle_taken quiet.up taken fits
  rw [stays, if_neg Bool.false_ne_true] at handled
  rw [call_of_write written]
  exact quiet.performed addressed taken mail handled

theorem call_released (leaves : m.release = true) (silent : s.Silent t) (mail : t.site.mail = [])
    (gone : ∀ packet, ((act.after s).write packet).release self = t.write packet) :
    ∃ reply, Trial.result (f.call method arguments) l = .ok reply ∧ Reply.Sent (act.result s) reply ∧
      (Trial.after (f.call method arguments) l).Quiet t := by
  have addressed : packet.get? "to" = some (.str self) := by
    rw [← get?_numbered_ne (by decide)]
    exact taken.addressed
  have handled := Request.handle_taken quiet.up taken fits
  rw [leaves, if_pos rfl] at handled
  rw [call_of_write written]
  exact quiet.replied addressed taken silent mail (handled.trans (by rw [gone]))

end

end

end Link.Quiet

end RemoteInspector
