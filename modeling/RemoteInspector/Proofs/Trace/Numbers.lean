import Mathlib.Data.List.Basic
import RemoteInspector.Proofs.Serve.Lineage
import RemoteInspector.Proofs.Serve.Speech
import RemoteInspector.Proofs.Trace.Frames
import RemoteInspector.Proofs.Trace.Starts
/-!
The numbers of frame packets: those of a session are numbered in the order in which the frames are entered and left. A
packet is written when its details are known, which may run code of the page; what that code enters is written first.
-/
namespace RemoteInspector

namespace Tracer

def frameTypes : List String := ["enteredFrame", "exitedFrame"]

def tells (self : String) (p : Json) : Bool :=
  p.getString? "from" == some self && (p.getString? "type").any (frameTypes.contains ·)

variable {self : String}

theorem tells_packet {sender type : String} {members : List (String × Json)} (keys : ∀ m ∈ members, Event.Key m.1) :
    tells self (Event.packet sender type members) = (sender == self && frameTypes.contains type) := by
  obtain ⟨fields, same, sent, typed, -⟩ := Event.packet_fields sender type keys
  simp [tells, same, Json.getString?, Json.get?, Json.string?, sent, typed]

theorem tells_withId (packet : Fields) (members : List (String × Json)) :
    tells self (Request.withId packet (.object members)) = tells self (.object members) := by
  obtain ⟨answer, formed, read⟩ := Request.withId_object packet members
  have sender := read "from"
  have type := read "type"
  rw [if_neg (by decide)] at sender type
  rw [formed]
  simp only [tells, Json.getString?, Json.get?, Json.object, sender, type]

theorem reply_type {s : Scene} {host method : String} {packet : Fields} {act : Act Reply}
    (accepted : decide s self host method packet = .ok act) :
    ∃ type ∉ frameTypes, (Fields.ofList (("from", .str self) :: act.result s)).get? "type" = some (.str type) := by
  unfold decide at accepted
  dsimp only at accepted
  split at accepted
  · split at accepted
    · cases accepted
    · cases accepted
      exact ⟨"attached", by decide, by simp [Fields.get?_ofList]⟩
  · cases accepted
    exact ⟨"detached", by decide, by simp [Fields.get?_ofList]⟩
  · obtain ⟨types, _, accepted⟩ := Decision.bind_ok accepted
    split at accepted
    · cases accepted
    · cases accepted
      exact ⟨"startedTrace", by decide, by simp [Fields.get?_ofList, traceReply]⟩
  · split at accepted
    · split at accepted
      · cases accepted
      · cases accepted
        exact ⟨"stoppedTrace", by decide, by simp [Fields.get?_ofList, traceReply]⟩
    · cases accepted
  · cases accepted

end Tracer

def Connection.Traces (self : String) (c : Connection) : Prop :=
  ∀ actor, c.registry.find? self = some actor → ∃ host, actor = .trace host

namespace Serve

variable {c : Connection} {turn : Turn}

open Tracer (tells)

variable {s : Scene} {self : String}

theorem handle_untold (traces : s.conn.Traces self) (packet : Fields) :
    s.Speaks (fun p => tells self p = false) (Request.handle s packet).1 := by
  refine Request.handle_says s packet (fun sender r => ?_) fun {sender actor method act} taken => ?_
  · rw [Refusal.packet, Tracer.tells_withId]
    simp [tells, Json.getString?, Json.get?, Json.object, Fields.get?_ofList]
  · rw [Tracer.tells_withId]
    by_cases here : sender = self
    · subst here
      obtain ⟨host, rfl⟩ := traces actor taken.live
      obtain ⟨type, other, read⟩ := Tracer.reply_type taken.decided
      have other : Tracer.frameTypes.contains type = false := by simpa using other
      simp only [tells, Json.getString?, Json.get?, Json.object, read, Option.bind_some, Json.string?, Option.any_some,
        other, Bool.and_false]
    · have answering :=
        Request.decide_answering Act.silent_law (Act.Silent.steps s sender actor) taken.decided
      have read : (Fields.ofList (("from", .str sender) :: act.result s)).get? "from" = some (.str sender) :=
        Fields.get?_ofList_cons _ fun m member => (answering.keys s m member).1
      simp [tells, Json.getString?, Json.get?, Json.object, read, Json.string?, here]

def said (c : Connection) (turn : Turn) : List Json := (take c turn).sent.drop c.sent.length

theorem framed_elsewhere {tracer : String} {input : Input} (framed : input.frame? = some tracer) (other : tracer ≠ self) :
    s.Speaks (fun p => tells self p = false) (step s input) := by
  have elsewhere : (tracer == self) = false := by simpa using other
  cases input with
  | entered tracer frame =>
    cases framed
    refine Act.Speaks.report (fun site t => ?_) _ trivial
    rw [Tracer.tells_packet (Tracer.keys_numbered (Tracer.keys_entered site t frame) _), elsewhere, Bool.false_and]
  | left tracer completion =>
    cases framed
    refine Act.Speaks.report (fun site t => ?_) _ trivial
    rw [Tracer.tells_packet (Tracer.keys_numbered (Tracer.keys_exited site t completion) _), elsewhere, Bool.false_and]
  | _ => cases framed

/-- A turn that tells a tracer of no frame makes no frame packet of it. What has been sent is kept, unless it has been
told. -/
theorem sent_untold (traces : c.Traces self) (unframed : turn.input.frame? ≠ some self) :
    ∃ more, ((take c turn).sent = c.sent ++ more ∨ (take c turn).sent = more) ∧ ∀ p ∈ more, tells self p = false := by
  have written {t : Scene} (speaks : Scene.Speaks (fun p => tells self p = false) ⟨turn.site, c⟩ t) :
      ∃ more, (t.conn.sent = c.sent ++ more ∨ t.conn.sent = more) ∧ ∀ p ∈ more, tells self p = false := by
    obtain ⟨more, sent, each⟩ := speaks.sent
    exact ⟨more, .inl sent, each⟩
  have nothing (t : Scene) (same : t.conn.sent = c.sent) :
      ∃ more, (t.conn.sent = c.sent ++ more ∨ t.conn.sent = more) ∧ ∀ p ∈ more, tells self p = false :=
    ⟨[], .inl (same.trans (List.append_nil _).symm), fun _ none => nomatch none⟩
  obtain ⟨site, input⟩ := turn
  unfold take
  cases input with
  | packet packet =>
    dsimp only [step]
    split
    · cases packet with
      | obj packet =>
        have handled := written (handle_untold traces packet)
        dsimp only [receive]
        split
        · exact handled
        · rw [sent_close]
          exact handled
      | _ => exact nothing _ rfl
    · exact nothing _ rfl
  | event event =>
    dsimp only [step, onEvent]
    split
    · refine written (Act.Speaks.follow (fun sender {type _} listed keys => ?_) _ event _ trivial)
      have other : ∀ type ∈ Event.types, Tracer.frameTypes.contains type = false := by decide
      rw [Tracer.tells_packet keys, other type listed, Bool.and_false]
    · exact nothing _ rfl
  | entered tracer frame => exact written (framed_elsewhere rfl fun same => unframed (congrArg some same))
  | left tracer completion => exact written (framed_elsewhere rfl fun same => unframed (congrArg some same))
  | lineBroken =>
    dsimp only [step]
    split <;> exact nothing _ rfl
  | hungUp =>
    dsimp only [step]
    split
    · exact nothing _ (sent_close _)
    · exact nothing _ rfl
  | told => exact ⟨[], .inr rfl, fun _ none => nomatch none⟩

theorem said_untold (traces : c.Traces self) (unframed : turn.input.frame? ≠ some self) :
    ∀ p ∈ said c turn, tells self p = false := by
  obtain ⟨more, sent | sent, each⟩ := sent_untold traces unframed
  · rw [said, sent, List.drop_left]
    exact each
  · rw [said, sent]
    intro p member
    exact each p (List.mem_of_mem_drop member)

/-- What a tracer has packets for, by type, with the details that it finds out. -/
inductive Tracer.News : String → (Site → Tracing → Site × List (String × Json)) → Prop
  | entered (frame : LiveFrame) : News "enteredFrame" fun site t => Tracer.entered site t frame
  | exited (completion : Completion Value) : News "exitedFrame" fun site t => Tracer.exited site t completion

section

variable {type : String} {details : Site → Tracing → Site × List (String × Json)}

end

/-! ### Sessions -/

/-- A turn that starts a trace where the tracer has none. -/
def Turn.Opens (self : String) (c : Connection) (turn : Turn) : Prop :=
  (turn.input.starts? ⟨turn.site, c⟩ self).isSome ∧ (Scene.tracing ⟨turn.site, c⟩ self).active = []

instance (self : String) (c : Connection) (turn : Turn) : Decidable (turn.Opens self c) :=
  inferInstanceAs (Decidable (_ ∧ _))

/-- A connection in the midst of things, with what a tracer has taken numbers for and not yet written, latest first. -/
structure Midst where
  conn : Connection
  held : List Tracing := []

/-- Something that happens while a tracer reports: finding out details may run code of the page, and so enter frames. -/
inductive Beat
  | turn (turn : Turn)
  /-- A frame is entered or left, and a number is taken for it. -/
  | claim (site : Site)
  /-- What the last number was taken for is written. -/
  | conclude (site : Site) (type : String) (details : Site → Tracing → Site × List (String × Json))

def Midst.go (self : String) (m : Midst) : Beat → Midst
  | .turn turn => { m with conn := take m.conn turn }
  | .claim site => ⟨((Tracer.claim self).after ⟨site, m.conn⟩).conn, Scene.tracing ⟨site, m.conn⟩ self :: m.held⟩
  | .conclude site type details =>
    match m.held with
    | [] => m
    | t :: rest => ⟨((Tracer.conclude self type details t).after ⟨site, m.conn⟩).conn, rest⟩

namespace Midst

variable {m : Midst} {beat : Beat} {beats : List Beat}

/-- The number that comes next. -/
def next (self : String) (m : Midst) : Nat := (Scene.tracing ⟨{}, m.conn⟩ self).sequence

def numbers (m : Midst) : List Nat := m.held.map (·.sequence)

/-- The numbers that a beat takes. -/
def takes (self : String) (m : Midst) : Beat → List Nat
  | .turn turn => if turn.input.frame? = some self then [m.next self] else []
  | .claim _ => [m.next self]
  | .conclude .. => []

/-- A beat within a session opens no other. -/
def Fits (self : String) (m : Midst) : Beat → Prop
  | .turn turn => ¬ turn.Opens self m.conn
  | .claim _ => True
  | .conclude _ type details => Tracer.News type details

/-- The frame packets of a tracer, in the order in which they are written. -/
def frames (self : String) : Midst → List Beat → List Json
  | _, [] => []
  | m, beat :: rest =>
    ((m.go self beat).conn.sent.drop m.conn.sent.length).filter (tells self) ++ frames self (m.go self beat) rest

def taken (self : String) : Midst → List Beat → List Nat
  | _, [] => []
  | m, beat :: rest => m.takes self beat ++ taken self (m.go self beat) rest

end Midst

end Serve

end RemoteInspector
