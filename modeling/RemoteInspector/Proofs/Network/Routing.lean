import RemoteInspector.Proofs.Inspector.Knowledge
import RemoteInspector.Proofs.Network.Tables
import RemoteInspector.Proofs.Serve.Answer
import RemoteInspector.Proofs.Serve.Lineage
/-!
Where the events of requests go: a console that listens hands each request an actor of its own.
-/
namespace RemoteInspector

open Registry (Named)

/-- An event of a request that a console handles, and whether it keeps bodies by then. -/
structure Handled where
  console : String
  saves : Bool
  id : String
  event : NetworkEvent

/-- The courses once an event has been handled: a start begins a new one, and anything else goes on with the one that
was begun last. -/
def Courses.after (courses : Courses) (c : Connection) (h : Handled) : Courses :=
  match h.event with
  | .request request => courses.set h.console h.id ⟨c.registry.newName c.id "netEvent", request, h.saves, []⟩
  | event => (courses h.console h.id).elim courses fun k => courses.set h.console h.id (k.add event)

theorem Scene.update_eq_self {s : Scene} {name : String} {actor : Actor} {f : Actor → Actor}
    (valid : s.Valid) (live : s.find? name = some actor) (same : f actor = actor) : s.update name f = s := by
  change (⟨s.site, { s.conn with registry := s.conn.registry.update name f }⟩ : Scene) = s
  rw [valid.update_eq_self live same]

namespace Network

variable {k : Course} {event : NetworkEvent}

variable {s : Scene} {own id : String} {con : ConsoleActor} {request : HttpRequest} {courses : Courses}

/-! ### Starts -/

section

variable (charted : Charted courses (fun _ => False) s.conn)

include charted

end

/-! ### Replies -/

theorem check_report {self method : String} {act : Act Reply} (asked : k.report self method = some act)
    (packet : Fields) : ∃ m, Schema.networkEvent.check method packet = .ok m ∧ m.name = method ∧ m.release = false := by
  unfold Course.report at asked
  split at asked
  case h_8 => cases asked
  all_goals exact ⟨_, rfl, rfl, rfl⟩

theorem sent_report {self method : String} {act : Act Reply} {packet : Fields}
    (live : s.find? self = some (.network (k.state own))) (addressed : packet.get? "to" = some (.str self))
    (typed : packet.get? "type" = some (.str method)) (asked : k.report self method = some act)
    (up : s.conn.line = .up) :
    (Serve.receive s (.obj packet)).conn.sent =
      s.conn.sent ++ [Request.withId packet (.object (("from", .str self) :: act.result s))] := by
  obtain ⟨m, checked, named, stays⟩ := check_report asked packet
  have checked : (Actor.network (k.state own)).schema.check method packet = .ok m := checked
  have decided : Request.decide s self m.name packet (.network (k.state own)) = .ok act := by
    rw [named]
    exact Course.decide_state asked
  have taken : Request.Taken s packet self (.network (k.state own)) m act :=
    ⟨addressed, live, ⟨method, typed, Schema.check_ok checked⟩, decided⟩
  have handled := Request.handle_decided addressed live typed checked stays decided
  have sent := taken.sent up
  dsimp only at sent
  rw [stays, if_neg Bool.false_ne_true] at sent
  rw [Request.receive_eq packet up, handled, sent]

end Network

/-! ### Turns -/

namespace Serve

variable {tab : TabId}

/-- The event of a request that a turn brings to a console that listens. -/
def Turn.handled? (c : Connection) (turn : Turn) : Option Handled :=
  match turn.input with
  | .event (.network tab id event) =>
    (Tabs.console? ⟨turn.site, c⟩ tab).bind fun (own, con) =>
      if c.isOpen ∧ con.listens .networkActivity then some ⟨own, con.saveBodies, id, event⟩ else none
  | _ => none

/-- What has been told of requests by the time of all turns, to which consoles. -/
def courses : Courses → Connection → List Turn → Courses
  | known, _, [] => known
  | known, c, turn :: rest => courses ((turn.handled? c).elim known (known.after c)) (take c turn) rest

variable {c : Connection} {turn : Turn} {known : Courses}

section

variable {s : Scene} {own : String} {con : ConsoleActor} (isOpen : s.conn.isOpen)
  (found : Tabs.console? s tab = some (own, con)) (listens : con.listens .networkActivity) (id : String)

include isOpen found listens id

end

end Serve

end RemoteInspector
