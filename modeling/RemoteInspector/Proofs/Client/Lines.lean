import Mathlib.Data.List.Nodup
import RemoteInspector.Proofs.Client.Correlation
/-!
Replies without a number: a client keeps the requests to each actor in a line, and such a reply goes to the first in the
line of its sender.
-/
namespace RemoteInspector

namespace Client

variable {c c' : Client} {id : RequestId} {a b : String} {fields : Fields}

def number? (fields : Fields) : Option RequestId := (fields.get? "requestId").bind Json.natural?

def sender (fields : Fields) : String := ((fields.get? "from").bind Json.string?).getD ""

/-- A request is struck off, from what is pending and from the line of an actor. -/
structure Struck (c c' : Client) (a : String) (id : RequestId) : Prop where
  next : c'.nextRequest = c.nextRequest
  pending : c'.pending = c.pending.filter (· ≠ id)
  line : ∀ b, c'.queue b = if b = a then (c.queue a).filter (· ≠ id) else c.queue b

theorem queue_modify (c : Client) (b : String) {f : List RequestId → List RequestId}
    (unasked : c.queue a = [] → f [] = []) :
    Client.queue { c with queues := c.queues.modify a f } b = if b = a then f (c.queue a) else c.queue b := by
  simp only [queue, Table.get?_modify] at unasked ⊢
  by_cases same : a = b
  · subst same
    cases entry : c.queues.get? a with
    | none => simp [unasked (by rw [entry]; rfl)]
    | some ids => simp
  · simp [same, Ne.symm same]

theorem queue_enter {packet : Fields} {target : String} (entered : c.enter packet = .ok (c', target, id)) (b : String) :
    c'.queue b = if b = target then c.queue target ++ [id] else c.queue b := by
  unfold enter at entered
  split at entered
  · cases entered
  · split at entered
    · cases entered
    · cases entered
      simp only [queue, Table.get?_insert]
      by_cases same : target = b
      · simp [same]
      · simp [same, Ne.symm same]

theorem struck_takePending (c : Client) (a : String) (id : RequestId) : c.Struck (c.takePending a id).1 a id :=
  ⟨rfl, rfl, fun b => queue_modify c b fun _ => rfl⟩

theorem queue_onEvent (c : Client) (a b : String) (fields : Fields) : (c.onEvent a fields).queue b = c.queue b := by
  unfold onEvent
  split
  · rfl
  · split <;> rfl

theorem receive_struck (isOpen : c.closed = false) (read : number? fields = some id) :
    c.Struck (c.receive (.obj fields)) (sender fields) id := by
  have struck := c.struck_takePending (sender fields) id
  have read' : (fields.get? "requestId").bind Json.natural? = some id := read
  simp only [receive, isOpen, Bool.false_eq_true, if_false, dispatch, read']
  split
  · exact ⟨struck.next, struck.pending, struck.line⟩
  · exact struck

theorem receive_event (isOpen : c.closed = false) (unnumbered : number? fields = none)
    (typed : fields.contains "type" = true) : c.receive (.obj fields) = c.onEvent (sender fields) fields := by
  have unread : (fields.get? "requestId").bind Json.natural? = none := unnumbered
  simp only [receive, isOpen, Bool.false_eq_true, if_false, dispatch, unread, typed, if_true]
  rfl

theorem filter_first {rest : List RequestId} (apart : id ∉ rest) : (id :: rest).filter (· ≠ id) = rest := by
  rw [List.filter_cons, if_neg (by simp), List.filter_eq_self.mpr]
  exact fun x member => by simpa using ne_of_mem_of_not_mem member apart

section

variable (isOpen : c.closed = false) (unnumbered : number? fields = none) (untyped : fields.contains "type" = false)

include isOpen unnumbered untyped

theorem receive_oldest : c.receive (.obj fields) =
    (c.takeOldest (sender fields)).2.elim (c.takeOldest (sender fields)).1
      fun id => (c.takeOldest (sender fields)).1.answer id fields := by
  have unread : (fields.get? "requestId").bind Json.natural? = none := unnumbered
  simp only [receive, isOpen, Bool.false_eq_true, if_false, dispatch, unread, untyped]
  rfl

theorem receive_unmatched (empty : c.queue (sender fields) = []) : c.receive (.obj fields) = c := by
  rw [receive_oldest isOpen unnumbered untyped, takeOldest, empty]
  rfl

theorem receive_first {rest : List RequestId} (line : c.queue (sender fields) = id :: rest) (apart : id ∉ rest) :
    c.Resolved (c.receive (.obj fields)) id fields ∧ c.Struck (c.receive (.obj fields)) (sender fields) id := by
  have queues (b : String) : Client.queue { c with queues := c.queues.modify (sender fields) fun _ => rest } b =
      if b = sender fields then (c.queue (sender fields)).filter (· ≠ id) else c.queue b := by
    rw [line, filter_first apart]
    exact queue_modify c b fun none => by rw [line] at none; cases none
  rw [receive_oldest isOpen unnumbered untyped, takeOldest, line]
  by_cases waits : id ∈ c.pending
  · simp only [List.contains_eq_mem, waits, decide_true, if_true, Option.elim_some]
    refine ⟨⟨rfl, rfl, by simp [answer, isOpen], fun other => ?_⟩, rfl, rfl, queues⟩
    simp [answer, Table.get?_insert, waits, isOpen, eq_comm]
  · simp only [List.contains_eq_mem, waits, decide_false, Bool.false_eq_true, if_false, Option.elim_none]
    exact ⟨⟨rfl, rfl, by simp [isOpen], by simp [waits]⟩, rfl, rfl, queues⟩

end

end Client

/-! ### Requests and what comes back -/

/-- A client, with the requests it made, oldest first, and whom each was addressed to. -/
structure Desk where
  client : Client
  asked : List (RequestId × String) := []

/-- One step of a client whose server may send anything. -/
inductive Deed
  | ask (packet : Fields)
  /-- A request that was made cannot be written. -/
  | fail (request : RequestId × String)
  | receive (packet : Json)
  | close

namespace Desk

open Client (number? sender)

variable {d : Desk} {a b : String} {id : RequestId} {past : List Deed}

def act (d : Desk) : Deed → Desk
  | .ask packet =>
    match d.client.enter packet with
    | .error _ => d
    | .ok (client, target, id) => ⟨client, d.asked ++ [(id, target)]⟩
  | .fail request =>
    if request ∈ d.asked then { d with client := (d.client.takePending request.2 request.1).1 } else d
  | .receive packet => { d with client := d.client.receive packet }
  | .close => { d with client := d.client.close }

def run (greeting : Fields) (past : List Deed) : Desk := past.foldl act { client := { greeting } }

def sentTo (d : Desk) (a : String) : List RequestId := (d.asked.filter (·.2 = a)).map Prod.fst

/-- The requests to an actor that still wait, oldest first. -/
def waiting (d : Desk) (a : String) : List RequestId := (d.sentTo a).filter (· ∈ d.client.pending)

/-- A packet has come with the number of a request to an actor, and under another name. -/
def Strayed (past : List Deed) (a : String) (id : RequestId) : Prop :=
  ∃ fields, .receive (.obj fields) ∈ past ∧ number? fields = some id ∧ sender fields ≠ a

/-- The line of an actor has the requests to it that wait, in their order, and none that was answered under the actor's
own name. -/
structure Filed (past : List Deed) (d : Desk) : Prop where
  orderly : d.client.Orderly
  given : ∀ q ∈ d.asked, q.1 < d.client.nextRequest
  distinct : (d.asked.map Prod.fst).Nodup
  line : ∀ a, (d.client.queue a).Sublist (d.sentTo a)
  waits : ∀ a, (d.client.queue a).filter (· ∈ d.client.pending) = d.waiting a
  strays : ∀ a, ∀ id ∈ d.client.queue a, id ∈ d.client.pending ∨ Strayed past a id

theorem mem_sentTo : id ∈ d.sentTo a ↔ (id, a) ∈ d.asked := by
  simp [sentTo]

theorem Strayed.mono (strayed : Strayed past a id) (deed : Deed) : Strayed (past ++ [deed]) a id := by
  obtain ⟨fields, member, rest⟩ := strayed
  exact ⟨fields, List.mem_append_left _ member, rest⟩

namespace Filed

variable (filed : Filed past d)

include filed

theorem nodup_line (a : String) : (d.client.queue a).Nodup := by
  refine (filed.line a).nodup (List.Nodup.sublist (List.Sublist.map _ List.filter_sublist) filed.distinct)

theorem unique (here : id ∈ d.client.queue a) (there : (id, b) ∈ d.asked) : a = b := by
  have asked := mem_sentTo.mp ((filed.line a).subset here)
  exact congrArg Prod.snd (List.inj_on_of_nodup_map filed.distinct asked there rfl)

theorem same {c : Client} (alike : d.client.Alike c) (queue : ∀ b, c.queue b = d.client.queue b) (deed : Deed) :
    Filed (past ++ [deed]) { d with client := c } where
  orderly := filed.orderly.alike alike
  given q member := alike.next ▸ filed.given q member
  distinct := filed.distinct
  line a := queue a ▸ filed.line a
  waits a := by
    rw [queue, waiting, alike.pending]
    exact filed.waits a
  strays a id member := by
    rw [alike.pending]
    exact (filed.strays a id (queue a ▸ member)).imp_right (·.mono deed)

theorem strike {c : Client} {deed : Deed} (orderly : c.Orderly) (struck : d.client.Struck c a id)
    (stray : ∀ b, b ≠ a → id ∈ d.client.queue b → Strayed (past ++ [deed]) b id) :
    Filed (past ++ [deed]) { d with client := c } := by
  have keep (ids : List RequestId) : ids.filter (· ∈ c.pending) =
      (ids.filter (· ∈ d.client.pending)).filter (· ≠ id) := by
    simp [struck.pending, List.filter_filter, and_comm]
  refine ⟨orderly, fun q member => struck.next ▸ filed.given q member, filed.distinct, fun b => ?_, fun b => ?_,
    fun b x member => ?_⟩
  · rw [struck.line]
    split
    · rename_i same
      subst same
      exact List.filter_sublist.trans (filed.line b)
    · exact filed.line b
  · have old : (d.sentTo b).filter (· ∈ d.client.pending) = (d.client.queue b).filter (· ∈ d.client.pending) :=
      (filed.waits b).symm
    rw [struck.line, waiting, show sentTo { d with client := c } b = d.sentTo b from rfl, keep (d.sentTo b), old]
    split
    · rename_i same
      subst same
      rw [keep]
      simp only [List.filter_filter]
      exact List.filter_congr fun x _ => by grind
    · rw [keep]
  · have waits (old : x ∈ d.client.queue b) (apart : x ≠ id) : x ∈ c.pending ∨ Strayed (past ++ [deed]) b x := by
      rw [struck.pending]
      exact (filed.strays b x old).imp (fun here => List.mem_filter.mpr ⟨here, by simpa using apart⟩) (·.mono deed)
    rw [struck.line] at member
    split at member
    · rename_i same
      obtain ⟨old, apart⟩ := List.mem_filter.mp (same ▸ member)
      exact waits (same ▸ old) (by simpa using apart)
    · rename_i other
      by_cases same : x = id
      · exact .inr (same ▸ stray b other (same ▸ member))
      · exact waits member same

theorem ask {c : Client} {target : String} (packet : Fields) (made : d.client.enter packet = .ok (c, target, id)) :
    Filed (past ++ [.ask packet]) ⟨c, d.asked ++ [(id, target)]⟩ := by
  have entered := Client.entered_of_enter made
  have new (q : RequestId × String) (member : q ∈ d.asked) : q.1 ≠ id :=
    Nat.ne_of_lt (entered.fresh ▸ filed.given q member)
  have sentTo (b : String) : Desk.sentTo ⟨c, d.asked ++ [(id, target)]⟩ b =
      d.sentTo b ++ if b = target then [id] else [] := by
    by_cases same : target = b
    · simp [Desk.sentTo, same]
    · simp [Desk.sentTo, same, Ne.symm same]
  have queue := Client.queue_enter made
  -- The new request is in no line yet, so the others wait as before.
  have keep (b : String) (ids : List RequestId) (old : ∀ x ∈ ids, x ∈ d.sentTo b) :
      ids.filter (· ∈ c.pending) = ids.filter (· ∈ d.client.pending) := by
    refine List.filter_congr fun x member => ?_
    have other := new _ (mem_sentTo.mp (old x member))
    simp [entered.pending, show x ≠ id from other]
  refine ⟨filed.orderly.entered entered, fun q member => ?_, ?_, fun b => ?_, fun b => ?_, fun b x member => ?_⟩
  · rw [entered.next]
    rcases List.mem_append.mp member with old | new
    · exact Nat.lt_succ_of_lt (filed.given q old)
    · rw [List.mem_singleton.mp new, entered.fresh]
      exact Nat.lt_succ_self _
  · rw [List.map_append, List.nodup_append]
    refine ⟨filed.distinct, List.nodup_singleton _, fun x old y fresh => ?_⟩
    obtain ⟨q, member, rfl⟩ := List.mem_map.mp old
    rw [List.mem_singleton.mp fresh]
    exact new q member
  · rw [queue, sentTo]
    split
    · rename_i same
      exact same ▸ (filed.line b).append (.refl _)
    · rw [List.append_nil]
      exact filed.line b
  · have line := keep b _ fun x member => (filed.line b).subset member
    have sent := keep b (d.sentTo b) fun x member => member
    have waits := filed.waits b
    rw [queue, waiting, sentTo]
    split
    · rename_i same
      subst same
      rw [List.filter_append, List.filter_append, line, sent, waits, waiting]
    · rw [List.append_nil, line, sent, waits, waiting]
  · rw [entered.pending, List.mem_append, List.mem_singleton, or_assoc, or_left_comm]
    rw [queue] at member
    split at member
    · rename_i same
      subst same
      rcases List.mem_append.mp member with old | fresh
      · exact .inr ((filed.strays b x old).imp_right (·.mono _))
      · exact .inl (List.mem_singleton.mp fresh)
    · exact .inr ((filed.strays b x member).imp_right (·.mono _))

theorem receive (packet : Json) : Filed (past ++ [.receive packet]) (d.act (.receive packet)) := by
  have unchanged := filed.same ⟨rfl, rfl, rfl, rfl⟩ (fun _ => rfl) (.receive packet)
  cases packet with
  | obj fields =>
    cases isOpen : d.client.closed with
    | true => rwa [Desk.act, Client.receive_closed _ isOpen]
    | false =>
      cases read : number? fields with
      | some id =>
        refine filed.strike (filed.orderly.resolved (d.client.receive_read read)) (Client.receive_struck isOpen read) ?_
        exact fun b other _ => ⟨fields, by simp, read, Ne.symm other⟩
      | none =>
        cases typed : Table.contains fields "type" with
        | true =>
          rw [Desk.act, Client.receive_event isOpen read typed]
          exact filed.same (d.client.onEvent_alike _ _) (d.client.queue_onEvent _ · fields) _
        | false =>
          cases line : d.client.queue (sender fields) with
          | nil => rwa [Desk.act, Client.receive_unmatched isOpen read typed line]
          | cons id rest =>
            have nodup := filed.nodup_line (sender fields)
            rw [line, List.nodup_cons] at nodup
            obtain ⟨resolved, struck⟩ := Client.receive_first isOpen read typed line nodup.1
            have first : id ∈ d.client.queue (sender fields) := line ▸ List.mem_cons_self
            refine filed.strike (filed.orderly.resolved resolved) struck fun b other here => ?_
            exact absurd (filed.unique here (mem_sentTo.mp ((filed.line _).subset first))) other
  | _ => exact unchanged

theorem act (deed : Deed) : Filed (past ++ [deed]) (d.act deed) := by
  have unchanged := filed.same ⟨rfl, rfl, rfl, rfl⟩ (fun _ => rfl) deed
  cases deed with
  | ask packet =>
    unfold Desk.act
    dsimp only
    split
    · exact unchanged
    · rename_i made
      exact filed.ask packet made
  | fail request =>
    by_cases member : request ∈ d.asked
    · rw [Desk.act, if_pos member]
      exact filed.strike (filed.orderly.takePending _ _) (Client.struck_takePending _ _ _)
        fun b other here => absurd (filed.unique here member) other
    · rwa [Desk.act, if_neg member]
  | receive packet => exact filed.receive packet
  | close =>
    refine ⟨filed.orderly.close, filed.given, filed.distinct, fun a => List.nil_sublist _, fun a => ?_, fun a id => nofun⟩
    simp [waiting, Desk.act, Client.close, Client.queue, Table.get?]

theorem run (deeds : List Deed) : Filed (past ++ deeds) (deeds.foldl Desk.act d) := by
  induction deeds generalizing past d with
  | nil => rwa [List.append_nil]
  | cons deed rest ih =>
    rw [List.append_cons]
    exact ih (filed.act deed)

end Filed

theorem filed_run (greeting : Fields) (past : List Deed) : Filed past (run greeting past) := by
  have start : Filed [] { client := { greeting } } := by
    refine ⟨⟨?_, ?_, ?_⟩, ?_, ?_, ?_, ?_, ?_⟩ <;> simp [Client.queue, sentTo, waiting, Table.get?]
  exact start.run past

/-- Whatever was asked and whatever came back, a reply with a number settles the request of that number if it still
waits, and no other. A reply without one settles the first in the line of its sender if that waits, and no other. The
line has all requests to the sender that wait, in their order; the rest of it are requests that were answered under
another name, of which the reply takes one away if it comes first. So where no answer strayed, the reply settles the
oldest request to its sender that waits. -/
theorem replies_without_number (greeting : Fields) (past : List Deed) (fields : Fields)
    (isOpen : (run greeting past).client.closed = false) :
    let d := run greeting past
    let c := d.client
    let after := c.receive (.obj fields)
    let settled : Fate := .answered (Client.outcomeOf fields)
    (∀ id ∈ c.pending, c.fate id = .pending) ∧
    (∀ k, number? fields = some k → ∀ id,
      after.fate id = if id = k ∧ k ∈ c.pending then settled else c.fate id) ∧
    (number? fields = none → fields.contains "type" = false →
      let line := c.queue (sender fields)
      line.Sublist (d.sentTo (sender fields)) ∧
      line.filter (· ∈ c.pending) = d.waiting (sender fields) ∧
      (∀ id ∈ line, id ∈ c.pending ∨ Strayed past (sender fields) id) ∧
      (∀ id, after.fate id = if line.head? = some id ∧ id ∈ c.pending then settled else c.fate id) ∧
      after.queue (sender fields) = line.tail ∧
      ((∀ id ∈ d.sentTo (sender fields), ¬ Strayed past (sender fields) id) → ∀ id,
        after.fate id = if (d.waiting (sender fields)).head? = some id then settled else c.fate id)) := by
  intro d c after settled
  have filed : Filed past d := filed_run greeting past
  refine ⟨fun id member => Client.fate_pending (filed.orderly.pending id member).2 member, fun k read id => ?_,
    fun unread untyped => ?_⟩
  · rw [(c.receive_read read).fate_eq id]
    simp [isOpen, c, d, settled]
  · intro line
    have strays := filed.strays (sender fields)
    have waits : line.filter (· ∈ c.pending) = d.waiting (sender fields) := filed.waits _
    have first : (∀ id, after.fate id = if line.head? = some id ∧ id ∈ c.pending then settled else c.fate id) ∧
        after.queue (sender fields) = line.tail := by
      cases queue : c.queue (sender fields) with
      | nil =>
        rw [show after = c from Client.receive_unmatched isOpen unread untyped queue]
        simp [line, queue]
      | cons k rest =>
        have nodup := filed.nodup_line (sender fields)
        rw [show d.client.queue (sender fields) = k :: rest from queue, List.nodup_cons] at nodup
        obtain ⟨resolved, struck⟩ := Client.receive_first isOpen unread untyped queue nodup.1
        have head : line.head? = some k := by simp [line, queue]
        refine ⟨fun id => ?_, ?_⟩
        · rw [resolved.fate_eq id, head]
          refine if_congr ⟨fun ⟨same, member, _⟩ => ⟨congrArg some same.symm, same ▸ member⟩, ?_⟩ rfl rfl
          rintro ⟨same, member⟩
          cases same
          exact ⟨rfl, member, isOpen⟩
        · rw [struck.line, if_pos rfl, queue, Client.filter_first nodup.1]
          simp [line, queue]
    refine ⟨filed.line _, waits, strays, first.1, first.2, fun none id => ?_⟩
    have all (x : RequestId) (member : x ∈ line) : x ∈ c.pending :=
      (strays x member).resolve_right (none x ((filed.line _).subset member))
    rw [first.1 id, ← waits, List.filter_eq_self.mpr fun x member => by simpa using all x member]
    exact if_congr ⟨And.left, fun head => ⟨head, all id (List.mem_of_head? head)⟩⟩ rfl rfl

/-- Of two requests to one actor and one to another, which is answered by its number, the older of the two is settled. -/
theorem replies_without_number_oldest :
    let ask (target : String) : Deed := .ask [("to", .str target)]
    let past := [ask "a", ask "b", ask "a", .receive (.obj [("from", .str "b"), ("requestId", .nat 1)])]
    let d := run [] past
    let after := d.client.receive (.obj [("from", .str "a")])
    d.waiting "a" = [0, 2] ∧ after.fate 0 = .answered (.ok [("from", .str "a")]) ∧ after.fate 2 = .pending := by
  intro ask past d after
  have matched := (replies_without_number [] past [("from", .str "a")] rfl).2.2 rfl rfl
  have own (id : RequestId) (asked : id ∈ d.sentTo "a") : ¬ Strayed past "a" id := by
    rintro ⟨fields, member, read, -⟩
    simp [past, ask] at member
    subst member
    cases read
    revert asked
    decide +kernel
  have fate := matched.2.2.2.2.2 own
  exact ⟨by decide +kernel, fate 0, fate 2⟩

/-- The first of two requests is answered under another name. The next reply of its actor is dropped, although the second
still waits. -/
theorem reply_behind_stray :
    let ask : Deed := .ask [("to", .str "a")]
    let d := run [] [ask, ask, .receive (.obj [("from", .str "b"), ("requestId", .nat 0)])]
    d.waiting "a" = [1] ∧ (d.client.receive (.obj [("from", .str "a")])).fate 1 = .pending := by
  exact ⟨by decide +kernel, rfl⟩

end Desk

end RemoteInspector
