import RemoteInspector.Client.Basic
import RemoteInspector.Proofs.Serve.Speech
/-!
Replies and requests: a request comes to know of nothing but the answer to itself, once, or of the end of the
connection.
-/
namespace RemoteInspector

/-! ### The client's books -/

namespace Client

variable {c c' : Client} {id : RequestId}

/-- Two clients with the same requests, in the same state. -/
structure Alike (c c' : Client) : Prop where
  next : c'.nextRequest = c.nextRequest
  pending : c'.pending = c.pending
  outcomes : c'.outcomes = c.outcomes
  closed : c'.closed = c.closed

theorem fate_congr (outcomes : c'.outcomes.get? id = c.outcomes.get? id)
    (pending : c.outcomes.get? id = none → (id ∈ c'.pending ↔ id ∈ c.pending)) : c'.fate id = c.fate id := by
  unfold fate
  rw [outcomes]
  cases here : c.outcomes.get? id with
  | some outcome => rfl
  | none => simp [pending here]

theorem Alike.fate_eq (alike : c.Alike c') (id : RequestId) : c'.fate id = c.fate id :=
  fate_congr (by rw [alike.outcomes]) fun _ => by rw [alike.pending]

theorem fate_pending (none_yet : c.outcomes.get? id = none) (member : id ∈ c.pending) : c.fate id = .pending := by
  simp [fate, none_yet, member]

theorem fate_disconnected (none_yet : c.outcomes.get? id = none) (gone : id ∉ c.pending) :
    c.fate id = .answered (.error .disconnected) := by
  simp [fate, none_yet, gone]

theorem fate_answered {outcome : Except ClientError Fields} (here : c.outcomes.get? id = some outcome) :
    c.fate id = .answered outcome := by
  simp [fate, here]

theorem pending_of_fate (waits : c.fate id = .pending) : c.outcomes.get? id = none ∧ id ∈ c.pending := by
  unfold fate at waits
  split at waits
  · cases waits
  · rename_i none_yet
    split at waits
    · rename_i member
      exact ⟨none_yet, by simpa using member⟩
    · cases waits

structure Entered (c c' : Client) (id : RequestId) : Prop where
  isOpen : c.closed = false
  fresh : id = c.nextRequest
  next : c'.nextRequest = c.nextRequest + 1
  pending : c'.pending = c.pending ++ [id]
  outcomes : c'.outcomes = c.outcomes
  closed : c'.closed = c.closed

theorem entered_of_enter {packet : Fields} {target : String} (entered : c.enter packet = .ok (c', target, id)) :
    c.Entered c' id := by
  unfold enter at entered
  split at entered
  · cases entered
  · split at entered
    · cases entered
    · rename_i isOpen
      cases entered
      exact ⟨by simpa using isOpen, rfl, rfl, rfl, rfl, rfl⟩

theorem onEvent_alike (c : Client) (sender : String) (packet : Fields) : c.Alike (c.onEvent sender packet) := by
  unfold onEvent
  split
  · exact ⟨rfl, rfl, rfl, rfl⟩
  · split <;> exact ⟨rfl, rfl, rfl, rfl⟩

theorem receive_closed (p : Json) (isClosed : c.closed = true) : c.receive p = c := by
  unfold receive
  split
  · rw [if_pos isClosed]
  · rfl

theorem receive_unasked (c : Client) {p : Json} (event : Event.Unasked p) : c.Alike (c.receive p) := by
  obtain ⟨fields, rfl, typed, unnumbered⟩ := event
  unfold receive
  dsimp only
  split
  · exact ⟨rfl, rfl, rfl, rfl⟩
  · have named : fields.contains "type" = true := typed
    simp only [dispatch, unnumbered, Option.bind_none, named, if_true]
    exact onEvent_alike c _ fields

/-- An answer resolves the request of its number if that still waits, and nothing else. -/
structure Resolved (c c' : Client) (id : RequestId) (fields : Fields) : Prop where
  next : c'.nextRequest = c.nextRequest
  closed : c'.closed = c.closed
  pending : ∀ other, other ∈ c'.pending ↔ other ∈ c.pending ∧ (c.closed = true ∨ other ≠ id)
  outcomes : ∀ other, c'.outcomes.get? other =
    if other = id ∧ id ∈ c.pending ∧ c.closed = false then some (outcomeOf fields) else c.outcomes.get? other

theorem receive_read (c : Client) {fields : Fields} (read : (fields.get? "requestId").bind Json.natural? = some id) :
    c.Resolved (c.receive (.obj fields)) id fields := by
  unfold receive
  dsimp only
  split
  · rename_i closed
    exact ⟨rfl, rfl, by simp [closed], by simp [closed]⟩
  · rename_i isOpen
    by_cases waits : id ∈ c.pending
    · simp only [dispatch, read, takePending, List.contains_eq_mem, waits, decide_true, if_true]
      refine ⟨rfl, rfl, by simp [answer, isOpen], fun other => ?_⟩
      simp [answer, Table.get?_insert, waits, isOpen, eq_comm]
    · simp only [dispatch, read, takePending, List.contains_eq_mem, waits, decide_false]
      exact ⟨rfl, rfl, by simp [isOpen], by simp [waits]⟩

theorem receive_numbered (c : Client) {fields : Fields} (number : fields.get? "requestId" = some (.nat id)) :
    c.Resolved (c.receive (.obj fields)) id fields :=
  c.receive_read (by rw [number]; rfl)

theorem Resolved.fate_eq {fields : Fields} (resolved : c.Resolved c' id fields) (other : RequestId) : c'.fate other =
    if other = id ∧ id ∈ c.pending ∧ c.closed = false then .answered (outcomeOf fields) else c.fate other := by
  have outcome := resolved.outcomes other
  split
  · rename_i now
    exact fate_answered (outcome.trans (if_pos now))
  · rename_i now
    refine fate_congr (outcome.trans (if_neg now)) fun _ => ?_
    rw [resolved.pending]
    refine ⟨And.left, fun waits => ⟨waits, ?_⟩⟩
    by_contra apart
    rw [not_or, Bool.not_eq_true, not_not] at apart
    exact now ⟨apart.2, apart.2 ▸ waits, apart.1⟩

/-- A request waits as long as it has no outcome, and none does once the connection is closed. -/
structure Orderly (c : Client) : Prop where
  pending : ∀ id ∈ c.pending, id < c.nextRequest ∧ c.outcomes.get? id = none
  settled : ∀ id outcome, c.outcomes.get? id = some outcome → id < c.nextRequest
  closed : c.closed = true → c.pending = []

namespace Orderly

variable (orderly : c.Orderly)

include orderly

theorem alike (alike : c.Alike c') : c'.Orderly where
  pending id member := by
    rw [alike.pending] at member
    rw [alike.next, alike.outcomes]
    exact orderly.pending id member
  settled id outcome here := by
    rw [alike.outcomes] at here
    rw [alike.next]
    exact orderly.settled id outcome here
  closed isClosed := by
    rw [alike.closed] at isClosed
    rw [alike.pending]
    exact orderly.closed isClosed

theorem entered (entered : c.Entered c' id) : c'.Orderly where
  pending other member := by
    rw [entered.pending, List.mem_append, List.mem_singleton] at member
    rw [entered.next, entered.outcomes]
    rcases member with member | same
    · obtain ⟨given, none_yet⟩ := orderly.pending other member
      exact ⟨Nat.lt_succ_of_lt given, none_yet⟩
    · rw [same, entered.fresh]
      refine ⟨Nat.lt_succ_self _, ?_⟩
      cases here : c.outcomes.get? c.nextRequest with
      | none => rfl
      | some outcome => exact absurd (orderly.settled _ outcome here) (Nat.lt_irrefl _)
  settled other outcome here := by
    rw [entered.outcomes] at here
    rw [entered.next]
    exact Nat.lt_succ_of_lt (orderly.settled other outcome here)
  closed isClosed := by
    rw [entered.closed, entered.isOpen] at isClosed
    cases isClosed

theorem takePending (target : String) (id : RequestId) : (c.takePending target id).1.Orderly where
  pending other member := orderly.pending other (List.mem_filter.mp member).1
  settled := orderly.settled
  closed isClosed := by
    have none_left := orderly.closed isClosed
    simp [Client.takePending, none_left]

theorem resolved {fields : Fields} (resolved : c.Resolved c' id fields) : c'.Orderly where
  pending other member := by
    obtain ⟨waits, apart⟩ := (resolved.pending other).mp member
    obtain ⟨given, none_yet⟩ := orderly.pending other waits
    refine ⟨by rw [resolved.next]; exact given, ?_⟩
    rw [resolved.outcomes, if_neg, none_yet]
    rintro ⟨same, -, isOpen⟩
    rcases apart with isClosed | other
    · rw [isOpen] at isClosed
      cases isClosed
    · exact other same
  settled other outcome here := by
    rw [resolved.outcomes] at here
    rw [resolved.next]
    split at here
    · rename_i now
      exact now.1 ▸ (orderly.pending id now.2.1).1
    · exact orderly.settled other outcome here
  closed isClosed := by
    rw [resolved.closed] at isClosed
    apply List.eq_nil_iff_forall_not_mem.mpr
    intro other member
    have waits := ((resolved.pending other).mp member).1
    rw [orderly.closed isClosed] at waits
    cases waits

theorem close : c.close.Orderly where
  pending _ member := nomatch member
  settled := orderly.settled
  closed _ := rfl

end Orderly

end Client

/-! ### Both ends and the line -/

/-- A request that has a number but is not written yet. -/
structure Held where
  target : String
  id : RequestId
  packet : Fields

/-- A packet on its way to the client, with the request that made the server write it. -/
structure Sent where
  packet : Json
  request : Option Fields

/-- A client and a connection, with what is on its way between them. -/
structure Exchange where
  client : Client
  held : List Held := []
  uplink : List Fields := []
  conn : Connection
  downlink : List Sent := []
  /-- The requests that were given a number, with that number in them. -/
  asked : List (RequestId × Fields) := []

/-- One step of a client, of the line or of the server. -/
inductive Move
  /-- A request is given a number. -/
  | enter (packet : Fields)
  /-- One of the requests with a number is written. -/
  | write (place : Nat)
  /-- One of the requests with a number cannot be written. -/
  | fail (place : Nat)
  /-- The server takes the next request from the line. -/
  | serve (site : Site)
  /-- Something else happens to the connection. -/
  | stir (site : Site) (input : Serve.Input) (spontaneous : input.Spontaneous)
  /-- The client takes the next packet from the line. -/
  | deliver
  /-- The client finds the connection closed. -/
  | close

namespace Exchange

/-- A client that has just been greeted. -/
def start (greeting : Fields) (conn : Connection) : Exchange :=
  { client := { greeting := greeting }, conn := { conn with sent := [] } }

/-- What the connection has written goes on the line. -/
def told (x : Exchange) (conn : Connection) (request : Option Fields) : Exchange :=
  { x with
    conn := { conn with sent := [] }
    downlink := x.downlink ++ conn.sent.map (⟨·, request⟩) }

def advance (x : Exchange) : Move → Exchange
  | .enter packet =>
    match x.client.enter packet with
    | .error _ => x
    | .ok (client, target, id) =>
      let numbered := packet.insert "requestId" (.nat id)
      { x with
        client := client
        held := x.held ++ [⟨target, id, numbered⟩]
        asked := x.asked ++ [(id, numbered)] }
  | .write place =>
    match x.held[place]? with
    | none => x
    | some h => { x with held := x.held.eraseIdx place, uplink := x.uplink ++ [h.packet] }
  | .fail place =>
    match x.held[place]? with
    | none => x
    | some h =>
      { x with held := x.held.eraseIdx place, client := (x.client.takePending h.target h.id).1 }
  | .serve site =>
    match x.uplink with
    | [] => x
    | request :: rest =>
      told { x with uplink := rest } (Serve.step ⟨site, x.conn⟩ (.packet (.obj request))).conn (some request)
  | .stir site input _ => x.told (Serve.step ⟨site, x.conn⟩ input).conn none
  | .deliver =>
    match x.downlink with
    | [] => x
    | p :: rest => { x with client := x.client.receive p.packet, downlink := rest }
  | .close => { x with client := x.client.close }

/-! ### What only grows -/

structure Later (x y : Exchange) : Prop where
  asked : ∀ q ∈ x.asked, q ∈ y.asked
  closed : x.client.closed = true → y.client.closed = true

theorem Later.refl (x : Exchange) : x.Later x := ⟨fun _ member => member, id⟩

theorem Later.trans {x y z : Exchange} (first : x.Later y) (next : y.Later z) : x.Later z :=
  ⟨fun q member => next.asked q (first.asked q member), fun isClosed => next.closed (first.closed isClosed)⟩

theorem advance_later (x : Exchange) (move : Move) : x.Later (x.advance move) := by
  cases move with
  | enter packet =>
    unfold advance
    dsimp only
    split
    · exact .refl x
    · rename_i made
      have entered := Client.entered_of_enter made
      exact ⟨fun _ member => List.mem_append_left _ member, fun isClosed => entered.closed.trans isClosed⟩
  | deliver =>
    unfold advance
    dsimp only
    split
    · exact .refl x
    · refine ⟨fun _ member => member, fun isClosed => ?_⟩
      rw [Client.receive_closed _ isClosed]
      exact isClosed
  | stir site input spontaneous => exact ⟨fun _ member => member, id⟩
  | close => exact ⟨fun _ member => member, fun _ => rfl⟩
  | _ =>
    unfold advance
    dsimp only
    split <;> exact ⟨fun _ member => member, id⟩

theorem later_run (x : Exchange) (moves : List Move) : x.Later (moves.foldl advance x) := by
  induction moves generalizing x with
  | nil => exact .refl x
  | cons move rest ih => exact (x.advance_later move).trans (ih _)

/-! ### What holds at all times -/

/-- A packet on the line is an event, or has the number of the request that it was written for. -/
def Fits (asked : List (RequestId × Fields)) (p : Sent) : Prop :=
  match p.request with
  | none => Event.Unasked p.packet
  | some request => ∃ id fields, (id, request) ∈ asked ∧ p.packet = .obj fields ∧
      Fields.get? fields "requestId" = some (.nat id)

theorem Fits.mono {asked asked' : List (RequestId × Fields)} {p : Sent} (fits : Fits asked p)
    (more : ∀ q ∈ asked, q ∈ asked') : Fits asked' p := by
  unfold Fits at fits ⊢
  split at fits
  · exact fits
  · obtain ⟨id, fields, member, same, number⟩ := fits
    exact ⟨id, fields, more _ member, same, number⟩

/-- Whatever is under way, in either direction, belongs to a request that was asked under a number of its own. -/
structure Coherent (x : Exchange) : Prop where
  client : x.client.Orderly
  quiet : x.conn.sent = []
  numbered : ∀ q ∈ x.asked, q.1 < x.client.nextRequest ∧ q.2.get? "requestId" = some (.nat q.1)
  distinct : (x.asked.map Prod.fst).Nodup
  held : ∀ h ∈ x.held, (h.id, h.packet) ∈ x.asked
  uplink : ∀ p ∈ x.uplink, ∃ id, (id, p) ∈ x.asked
  downlink : ∀ p ∈ x.downlink, Fits x.asked p

theorem coherent_start (greeting : Fields) (conn : Connection) : (start greeting conn).Coherent := by
  constructor
  · constructor <;> simp [start, Table.get?]
  all_goals simp [start]

namespace Coherent

variable {x : Exchange} (coherent : x.Coherent)

include coherent

theorem told {conn : Connection} {request : Option Fields} (fits : ∀ p ∈ conn.sent, Fits x.asked ⟨p, request⟩) :
    (x.told conn request).Coherent where
  client := coherent.client
  quiet := rfl
  numbered := coherent.numbered
  distinct := coherent.distinct
  held := coherent.held
  uplink := coherent.uplink
  downlink p member := by
    rcases List.mem_append.mp member with member | member
    · exact coherent.downlink p member
    · obtain ⟨packet, written, rfl⟩ := List.mem_map.mp member
      exact fits packet written

theorem client_changed {client : Client} (orderly : client.Orderly)
    (next : client.nextRequest = x.client.nextRequest) : { x with client := client }.Coherent where
  client := orderly
  quiet := coherent.quiet
  numbered q member := by
    rw [next]
    exact coherent.numbered q member
  distinct := coherent.distinct
  held := coherent.held
  uplink := coherent.uplink
  downlink := coherent.downlink

theorem enter {client : Client} {target : String} {id : RequestId} {packet : Fields}
    (entered : x.client.Entered client id) :
    { x with
      client := client
      held := x.held ++ [({ target, id, packet := packet.insert "requestId" (.nat id) } : Held)]
      asked := x.asked ++ [(id, packet.insert "requestId" (.nat id))] }.Coherent where
  client := coherent.client.entered entered
  quiet := coherent.quiet
  numbered q member := by
    rcases List.mem_append.mp member with member | member
    · obtain ⟨given, number⟩ := coherent.numbered q member
      exact ⟨by rw [entered.next]; exact Nat.lt_succ_of_lt given, number⟩
    · cases List.mem_singleton.mp member
      refine ⟨by rw [entered.next, entered.fresh]; exact Nat.lt_succ_self _, ?_⟩
      simp [Fields.get?_insert]
  distinct := by
    rw [List.map_append, List.nodup_append]
    refine ⟨coherent.distinct, List.nodup_singleton _, fun a old b new => ?_⟩
    obtain ⟨q, member, rfl⟩ := List.mem_map.mp old
    have given := (coherent.numbered q member).1
    rw [List.mem_singleton.mp new]
    intro same
    rw [same, entered.fresh] at given
    exact Nat.lt_irrefl _ given
  held h member := by
    rcases List.mem_append.mp member with member | member
    · exact List.mem_append_left _ (coherent.held h member)
    · cases List.mem_singleton.mp member
      exact List.mem_append_right _ List.mem_cons_self
  uplink p member := by
    obtain ⟨id, asked⟩ := coherent.uplink p member
    exact ⟨id, List.mem_append_left _ asked⟩
  downlink p member := (coherent.downlink p member).mono fun _ => List.mem_append_left _

theorem advance (move : Move) : (x.advance move).Coherent := by
  cases move with
  | enter packet =>
    unfold Exchange.advance
    dsimp only
    split
    · exact coherent
    · rename_i entered
      exact coherent.enter (Client.entered_of_enter entered)
  | write place =>
    unfold Exchange.advance
    dsimp only
    split
    · exact coherent
    · rename_i h here
      have asked := coherent.held h (List.mem_of_getElem? here)
      refine { coherent with held := ?_, uplink := ?_ }
      · exact fun h member => coherent.held h (List.mem_of_mem_eraseIdx member)
      · intro p member
        rcases List.mem_append.mp member with member | member
        · exact coherent.uplink p member
        · cases List.mem_singleton.mp member
          exact ⟨h.id, asked⟩
  | fail place =>
    unfold Exchange.advance
    dsimp only
    split
    · exact coherent
    · rename_i h here
      have struck := coherent.client_changed (coherent.client.takePending h.target h.id) rfl
      exact { struck with held := fun h member => coherent.held h (List.mem_of_mem_eraseIdx member) }
  | serve site =>
    unfold Exchange.advance
    dsimp only
    split
    · exact coherent
    · rename_i request rest onLine
      have next : { x with uplink := rest }.Coherent :=
        { coherent with uplink := fun p member => coherent.uplink p (onLine ▸ List.mem_cons_of_mem _ member) }
      obtain ⟨id, asked⟩ := coherent.uplink request (onLine ▸ List.mem_cons_self)
      obtain ⟨said, sent, answers⟩ := Serve.sent_packet ⟨site, x.conn⟩ request
      rw [coherent.quiet, List.nil_append] at sent
      refine next.told fun p member => ?_
      obtain ⟨fields, same, number⟩ := answers p (sent ▸ member)
      exact ⟨id, fields, asked, same, number.trans (coherent.numbered _ asked).2⟩
  | stir site input spontaneous =>
    obtain ⟨said, sent, events⟩ := Serve.sent_spontaneous ⟨site, x.conn⟩ spontaneous
    rw [coherent.quiet, List.nil_append] at sent
    exact coherent.told fun p member => events p (sent ▸ member)
  | deliver =>
    unfold Exchange.advance
    dsimp only
    split
    · exact coherent
    · rename_i p rest onLine
      have next : { x with downlink := rest }.Coherent :=
        { coherent with downlink := fun p member => coherent.downlink p (onLine ▸ List.mem_cons_of_mem _ member) }
      have fits := coherent.downlink p (onLine ▸ List.mem_cons_self)
      unfold Fits at fits
      split at fits
      · have alike := x.client.receive_unasked fits
        exact next.client_changed (coherent.client.alike alike) alike.next
      · obtain ⟨id, fields, -, same, number⟩ := fits
        have resolved := x.client.receive_numbered number
        rw [same]
        exact next.client_changed (coherent.client.resolved resolved) resolved.next
  | close => exact coherent.client_changed coherent.client.close rfl

theorem run (moves : List Move) : (moves.foldl Exchange.advance x).Coherent := by
  induction moves generalizing x with
  | nil => exact coherent
  | cons move rest ih => exact ih (coherent.advance move)

end Coherent

/-! ### What becomes of a request -/

/-- How a request ceases to wait: the answer to it is delivered, it cannot be written, or the connection
is closed. -/
inductive Settles (x : Exchange) (id : RequestId) : Move → Except ClientError Fields → Prop
  | answered {request answer : Fields} {later : List Sent} (next : x.downlink = ⟨.obj answer, some request⟩ :: later)
      (asked : (id, request) ∈ x.asked) : Settles x id .deliver (Client.outcomeOf answer)
  | unwritten {place : Nat} {h : Held} (here : x.held[place]? = some h) (same : h.id = id) :
      Settles x id (.fail place) (.error .disconnected)
  | closed : Settles x id .close (.error .disconnected)

/-- A step leaves the fate of a request as it is, or settles it. -/
def Carries (x : Exchange) (id : RequestId) (move : Move) : Prop :=
  (x.advance move).client.fate id = x.client.fate id ∨
    x.client.fate id = .pending ∧ ∃ outcome, Settles x id move outcome ∧
      (x.advance move).client.fate id = .answered outcome

namespace Coherent

variable {request : Fields}

variable {x : Exchange} (coherent : x.Coherent) {id : RequestId}

include coherent

theorem carries_fail (place : Nat) : x.Carries id (.fail place) := by
  cases here : x.held[place]? with
  | none =>
    left
    simp [Exchange.advance, here]
  | some h =>
    have struck : (x.advance (.fail place)).client = (x.client.takePending h.target h.id).1 := by
      simp [Exchange.advance, here]
    unfold Carries
    rw [struck]
    by_cases now : h.id = id ∧ id ∈ x.client.pending
    · obtain ⟨rfl, waits⟩ := now
      have none_yet := (coherent.client.pending _ waits).2
      refine .inr ⟨Client.fate_pending none_yet waits, _, .unwritten here rfl, ?_⟩
      exact Client.fate_disconnected none_yet (by simp [Client.takePending])
    · refine .inl (Client.fate_congr rfl fun _ => ?_)
      simp only [Client.takePending, List.mem_filter, decide_eq_true_eq]
      exact ⟨And.left, fun waits => ⟨waits, fun same => now ⟨same.symm, waits⟩⟩⟩

theorem carries_deliver : x.Carries id .deliver := by
  cases onLine : x.downlink with
  | nil =>
    left
    simp [Exchange.advance, onLine]
  | cons p later =>
    have taken : (x.advance .deliver).client = x.client.receive p.packet := by
      simp [Exchange.advance, onLine]
    have fits := coherent.downlink p (onLine ▸ List.mem_cons_self)
    unfold Carries
    rw [taken]
    obtain ⟨packet, request⟩ := p
    cases request with
    | none => exact .inl ((x.client.receive_unasked fits).fate_eq id)
    | some request =>
      obtain ⟨number, fields, asked, rfl, numbered⟩ := fits
      have fate := (x.client.receive_numbered numbered).fate_eq id
      by_cases now : id = number ∧ number ∈ x.client.pending ∧ x.client.closed = false
      · rw [if_pos now] at fate
        obtain ⟨rfl, waits, -⟩ := now
        exact .inr ⟨Client.fate_pending (coherent.client.pending id waits).2 waits, _, .answered onLine asked, fate⟩
      · exact .inl (fate.trans (if_neg now))

theorem carries (move : Move) (given : id < x.client.nextRequest) : x.Carries id move := by
  cases move with
  | enter packet =>
    left
    unfold Exchange.advance
    dsimp only
    split
    · rfl
    · rename_i made
      have entered := Client.entered_of_enter made
      refine Client.fate_congr (by rw [entered.outcomes]) fun _ => ?_
      rw [entered.pending, List.mem_append, List.mem_singleton, entered.fresh, or_iff_left (Nat.ne_of_lt given)]
  | write place =>
    left
    unfold Exchange.advance
    dsimp only
    split <;> rfl
  | fail place => exact coherent.carries_fail place
  | serve site =>
    left
    unfold Exchange.advance
    dsimp only
    split <;> rfl
  | stir site input spontaneous => exact .inl rfl
  | deliver => exact coherent.carries_deliver
  | close =>
    by_cases waits : id ∈ x.client.pending
    · have none_yet := (coherent.client.pending id waits).2
      refine .inr ⟨Client.fate_pending none_yet waits, _, .closed, ?_⟩
      exact Client.fate_disconnected none_yet (fun member => nomatch member)
    · refine .inl (Client.fate_congr rfl fun _ => ?_)
      exact iff_of_false (fun member => nomatch member) waits

theorem fate_final (asked : (id, request) ∈ x.asked) {outcome : Except ClientError Fields}
    (answered : x.client.fate id = .answered outcome) (moves : List Move) :
    (moves.foldl Exchange.advance x).client.fate id = .answered outcome := by
  induction moves generalizing x with
  | nil => exact answered
  | cons move rest ih =>
    refine ih (coherent.advance move) ((x.advance_later move).asked _ asked) ?_
    rcases coherent.carries move (coherent.numbered _ asked).1 with same | ⟨waits, -⟩
    · exact same.trans answered
    · rw [waits] at answered
      cases answered

theorem settle (asked : (id, request) ∈ x.asked) (waits : x.client.fate id = .pending) {move : Move}
    {outcome : Except ClientError Fields} (settles : Settles x id move outcome) :
    (x.advance move).client.fate id = .answered outcome := by
  obtain ⟨none_yet, member⟩ := Client.pending_of_fate waits
  cases settles with
  | @answered request' answer later onLine asked' =>
    have fits := coherent.downlink _ (onLine ▸ List.mem_cons_self)
    obtain ⟨number, fields, asked'', same, numbered⟩ := fits
    cases same
    -- a request has but one number
    have read : some (Json.nat number) = some (Json.nat id) :=
      (coherent.numbered _ asked'').2.symm.trans (coherent.numbered _ asked').2
    have same : number = id := by
      simp only [Json.nat, Option.some.injEq, Json.num.injEq, Number.int.injEq] at read
      exact Int.ofNat.inj read
    subst same
    have isOpen : x.client.closed = false := by
      rw [← Bool.not_eq_true]
      intro isClosed
      rw [coherent.client.closed isClosed] at member
      cases member
    have taken : (x.advance .deliver).client = x.client.receive (.obj answer) := by
      simp [Exchange.advance, onLine]
    rw [taken]
    exact ((x.client.receive_numbered numbered).fate_eq number).trans (if_pos ⟨rfl, member, isOpen⟩)
  | @unwritten place h here same =>
    have struck : (x.advance (.fail place)).client = (x.client.takePending h.target h.id).1 := by
      simp [Exchange.advance, here]
    rw [struck]
    exact Client.fate_disconnected none_yet (by simp [Client.takePending, same])
  | closed => exact Client.fate_disconnected none_yet fun member => nomatch member

theorem settles_iff (asked : (id, request) ∈ x.asked) (waits : x.client.fate id = .pending) (move : Move)
    (outcome : Except ClientError Fields) :
    (x.advance move).client.fate id = .answered outcome ↔ Settles x id move outcome := by
  refine ⟨fun answered => ?_, coherent.settle asked waits⟩
  rcases coherent.carries move (coherent.numbered _ asked).1 with same | ⟨-, outcome', settles, answered'⟩
  · rw [same, waits] at answered
    cases answered
  · cases answered.symm.trans answered'
    exact settles

end Coherent

/-- However requests, packets, events and the end of the connection interleave, requests have different
numbers, and what has become of a request is final. A request that waits is settled by the delivery of the
server's answer to that very request, by a failure to write it or by the close of the connection, and by
nothing else; so events settle none. Once the connection is closed nothing waits any more, and every further
request is refused. -/
theorem replies_correlated (greeting : Fields) (conn : Connection) (before : List Move) (move : Move)
    (after : List Move) :
    let x := before.foldl advance (start greeting conn)
    let y := x.advance move
    let z := after.foldl advance y
    (x.asked.map Prod.fst).Nodup ∧
    (∀ id request, (id, request) ∈ x.asked →
      (∀ outcome, x.client.fate id = .answered outcome → z.client.fate id = .answered outcome) ∧
      (x.client.fate id = .pending → ∀ outcome,
        y.client.fate id = .answered outcome ↔ Settles x id move outcome)) ∧
    (∀ p later, x.downlink = p :: later → p.request = none → move = .deliver →
      ∀ id, y.client.fate id = x.client.fate id) ∧
    (move = .close → y.client.closed = true) ∧
    (x.client.closed = true → z.client.closed = true ∧ (∀ id, x.client.fate id ≠ .pending) ∧
      ∀ packet target, Fields.get? packet "to" = some (.str target) →
        x.client.enter packet = .error .disconnected) := by
  intro x y z
  have coherent : x.Coherent := (coherent_start greeting conn).run before
  refine ⟨coherent.distinct, fun id request asked => ⟨fun outcome answered => ?_, fun waits => ?_⟩, ?_, ?_, ?_⟩
  · exact coherent.fate_final asked answered (move :: after)
  · exact coherent.settles_iff asked waits move
  · rintro ⟨packet, request⟩ later onLine rfl rfl id
    have event : Event.Unasked packet := coherent.downlink ⟨packet, none⟩ (onLine ▸ List.mem_cons_self)
    have taken : y.client = x.client.receive packet := by simp [y, advance, onLine]
    rw [taken]
    exact (x.client.receive_unasked event).fate_eq id
  · rintro rfl
    rfl
  · intro isClosed
    refine ⟨((x.advance_later move).trans (later_run _ after)).closed isClosed, fun id waits => ?_, ?_⟩
    · have member := (Client.pending_of_fate waits).2
      rw [coherent.client.closed isClosed] at member
      cases member
    · intro packet target addressed
      simp [Client.enter, addressed, Json.string?, isClosed]

end Exchange

end RemoteInspector
