import RemoteInspector.Proofs.Serve.Answer
import RemoteInspector.Proofs.Serve.Life
/-!
What a connection says of its own accord: events, which have a type and answer no request.
-/
namespace RemoteInspector

/-! ### Events as packets -/

namespace Event

variable {sender type : String} {members : List (String × Json)}

theorem packet_fields (sender type : String) (keys : ∀ m ∈ members, Key m.1) :
    ∃ fields : Fields, packet sender type members = .obj fields ∧
      fields.get? "from" = some (.str sender) ∧ fields.get? "type" = some (.str type) ∧
      fields.get? "requestId" = none := by
  have absent {key : String} (other : ∀ m ∈ members, m.1 ≠ key) :
      (Fields.ofList members).get? key = none := Fields.get?_ofList_eq_none other
  refine ⟨_, rfl, ?_, ?_, ?_⟩ <;> rw [Fields.get?_ofList_append]
  · rw [absent fun m member => (keys m member).1, Option.none_or]
    simp [Fields.get?_ofList]
  · rw [absent fun m member => (keys m member).2.1, Option.none_or]
    simp [Fields.get?_ofList]
  · rw [absent fun m member => (keys m member).2.2, Option.none_or]
    simp [Fields.get?_ofList]

def Unasked (p : Json) : Prop :=
  ∃ fields : Fields, p = .obj fields ∧ (fields.get? "type").isSome ∧ fields.get? "requestId" = none

theorem unasked_packet (keys : ∀ m ∈ members, Key m.1) : Unasked (packet sender type members) := by
  obtain ⟨fields, same, -, typed, unnumbered⟩ := packet_fields sender type keys
  exact ⟨fields, same, by simp [typed], unnumbered⟩

def announcement (walker : String) : Json := packet walker news []

def announces (walker : String) (p : Json) : Bool :=
  p.getString? "from" == some walker && p.getString? "type" == some news

theorem announces_packet (walker : String) (keys : ∀ m ∈ members, Key m.1) :
    announces walker (packet sender type members) = (sender == walker && type == news) := by
  obtain ⟨fields, same, sent, typed, -⟩ := packet_fields sender type keys
  simp [announces, same, Json.getString?, Json.get?, Json.string?, sent, typed]

end Event

/-! ### Acts that speak -/

/-- Packets of one kind have been written, and the connection stands as before. -/
structure Scene.Speaks (Q : Json → Prop) (s t : Scene) : Prop where
  line : t.conn.line = s.conn.line
  stage : t.conn.stage = s.conn.stage
  id : t.conn.id = s.conn.id
  sent : ∃ said, t.conn.sent = s.conn.sent ++ said ∧ ∀ p ∈ said, Q p

namespace Scene.Speaks

variable {Q : Json → Prop} {s t u : Scene}

theorem of_silent (silent : s.Silent t) : s.Speaks Q t :=
  ⟨silent.line, silent.stage, silent.id, [], by rw [silent.sent, List.append_nil], fun _ none => nomatch none⟩

theorem trans (first : s.Speaks Q t) (next : t.Speaks Q u) : s.Speaks Q u := by
  obtain ⟨said, sent, each⟩ := first.sent
  obtain ⟨said', sent', each'⟩ := next.sent
  refine ⟨next.line.trans first.line, next.stage.trans first.stage, next.id.trans first.id, said ++ said', ?_, ?_⟩
  · rw [sent', sent, List.append_assoc]
  · intro p member
    exact (List.mem_append.mp member).elim (each p) (each' p)

theorem write {p : Json} (is : Q p) : s.Speaks Q (s.write p) := by
  cases line : s.conn.line with
  | up =>
    rw [Scene.write, line]
    refine ⟨rfl, rfl, rfl, [p], rfl, fun q member => ?_⟩
    rw [List.mem_singleton.mp member]
    exact is
  | broken =>
    rw [Scene.write, line]
    exact of_silent (.refl s)

theorem reply {self : String} {p : Json} (is : Q p) (released : Bool) :
    s.Speaks Q (if released then (s.write p).release self else s.write p) := by
  cases released with
  | true => exact (write is).trans (of_silent (.release _ self))
  | false => exact write is

end Scene.Speaks

namespace Act

variable {Q : Json → Prop}

abbrev Speaks (Q : Json → Prop) {γ : Type} (act : Act γ) : Prop := Keeps (fun _ => True) (Scene.Speaks Q) act

theorem speaks_law : Law (Speaks Q) :=
  keeps_law (fun s _ => .of_silent (.refl s)) (fun first next => first.trans next) fun _ _ => trivial

namespace Speaks

theorem of_silent {γ : Type} {act : Act γ} (silent : Silent act) : Speaks Q act :=
  fun s holds => .of_silent (silent s holds)

theorem event {p : Json} (is : Q p) : Speaks Q (event p) := fun _ _ => .write is

theorem tending : Tending (Speaks Q) := Silent.tending.mono speaks_law of_silent

theorem onUpdate (told : ∀ sender {members}, (∀ m ∈ members, Event.Key m.1) →
      Q (Event.packet sender "networkEventUpdate" members))
    (console : String) (c : ConsoleActor) (id : String) (event : NetworkEvent) :
    Speaks Q (Network.onUpdate console c id event) := by
  refine speaks_law.bind tending.read fun s => ?_
  dsimp only
  split
  · exact tending.updateConsole _ _
  · rename_i name n found
    split
    · exact speaks_law.pure _
    · rename_i n' update members recorded
      refine speaks_law.bind (of_silent (Silent.update _ _)) fun _ => Speaks.event ?_
      refine told name fun m member => ?_
      rcases List.mem_cons.mp member with rfl | member
      · exact show Event.Key "updateType" by decide
      · revert m
        unfold NetworkActor.record at recorded
        split at recorded <;> cases recorded <;> simp [Event.Key, NetworkActor.startMembers]

theorem following (told : ∀ sender {type members}, type ≠ Event.news → (∀ m ∈ members, Event.Key m.1) →
      Q (Event.packet sender type members)) : Following (Speaks Q) :=
  { tending with
    event := fun sender _ _ other keys => event (told sender other keys)
    onUpdate := onUpdate fun sender _ keys => told sender (by decide) keys }

theorem report {tracer type : String} {details : Site → Tracing → Site × List (String × Json)}
    (told : ∀ site t, Q (Event.packet tracer type (("sequence", .nat t.sequence) :: (details site t).2))) :
    Speaks Q (Tracer.report tracer type details) :=
  Tracer.report_law speaks_law tending.read (tending.tracing _ _) tending.site fun site t => event (told site t)

/-! ### Walkers -/

variable {walker : String}

section

variable (told : Q (Event.announcement walker))

include told

theorem queue (w : WalkerActor) (records : List Mutation) : Speaks Q (Walker.queue walker w records) :=
  Walker.queue_law speaks_law w (of_silent (Silent.update _ _)) (event told)

theorem onChanges (changes : List Dom.Change) : Speaks Q (Walker.onChanges walker changes) :=
  Walker.onChanges_law speaks_law tending.read (queue told) changes fun _ => of_silent (Silent.update _ _)

theorem onFrameLoad (frame : NodeId) : Speaks Q (Walker.onFrameLoad walker frame) :=
  Walker.onFrameLoad_law speaks_law tending.read (queue told) frame

theorem onDocumentUnload (document : NodeId) : Speaks Q (Walker.onDocumentUnload walker document) :=
  Walker.onDocumentUnload_law speaks_law tending.read (queue told) document (tending.releaseNode walker)

end

/-! ### Events -/

theorem follow (told : ∀ sender {type members}, type ∈ Event.types → (∀ m ∈ members, Event.Key m.1) →
      Q (Event.packet sender type members)) (s : Scene) (news : Event) : Speaks Q (Serve.follow s news) := by
  have whole : Deeds.Whole (Speaks Q) :=
    { tending.tabbed with
      event := fun console _ _ listed keys => event (told console (.tail _ (.tail _ listed)) keys)
      request := fun _ _ => of_silent (Silent.register _ _ _)
      enlist := fun console _ _ => tending.updateConsole console _
      onUpdate := onUpdate fun sender _ keys => told sender (by decide) keys }
  have announced (walker : String) : Q (Event.announcement walker) := told walker (by decide) (by simp)
  exact Serve.follow_law speaks_law (whole.follow s) (whole.walkers s) (fun walker => onChanges (announced walker))
    (fun walker => onFrameLoad (announced walker)) fun walker => onDocumentUnload (announced walker)

end Speaks

end Act

/-! ### Turns -/

namespace Request

/-- A packet with the number of a request, or without one as that is. -/
def Answers (request : Fields) (p : Json) : Prop :=
  ∃ fields : Fields, p = .obj fields ∧ fields.get? "requestId" = request.get? "requestId"

theorem answers_object {request : Fields} {members : List (String × Json)}
    (keys : ∀ m ∈ members, m.1 ≠ "requestId") : Answers request (withId request (.object members)) := by
  obtain ⟨answer, formed, read⟩ := withId_object request members
  refine ⟨answer, formed, ?_⟩
  rw [read, if_pos rfl, Fields.get?_ofList_eq_none keys, Option.or_none]

theorem handle_says {Q : Json → Prop} (s : Scene) (request : Fields)
    (refused : ∀ self r, Q (withId request (Refusal.packet r self)))
    (replied : ∀ {self actor method act}, Taken s request self actor method act →
      Q (withId request (.object (("from", .str self) :: act.result s)))) : s.Speaks Q (handle s request).1 := by
  unfold handle
  split
  · exact .write (refused _ _)
  · rename_i self addressed
    split
    · exact .write (refused _ _)
    · rename_i actor live
      split
      · exact .write (refused _ _)
      · rename_i type typed
        cases checked : actor.schema.check type request with
        | error r => exact .write (refused _ _)
        | ok method =>
          dsimp only
          rw [perform_eq]
          cases decided : decide s self method.name request actor with
          | error r => exact .write (refused _ _)
          | ok act =>
            have taken : Taken s request self actor method act := ⟨string?_eq_some.mp addressed, live,
              ⟨type, string?_eq_some.mp typed, Schema.check_ok checked⟩, decided⟩
            have silent := (decide_answering Act.silent_law (Act.Silent.steps s self actor) decided).law s trivial
            exact (Scene.Speaks.of_silent silent).trans (.reply (replied taken) _)

theorem handle_speaks (s : Scene) (request : Fields) : s.Speaks (Answers request) (handle s request).1 := by
  refine handle_says s request (fun _ _ => answers_object (by simp)) fun {self actor _ _} taken => ?_
  have answering := decide_answering Act.silent_law (Act.Silent.steps s self actor) taken.decided
  refine answers_object fun m member => ?_
  rcases List.mem_cons.mp member with rfl | member
  · exact (by decide : "from" ≠ "requestId")
  · exact (answering.keys s m member).2.1

end Request

namespace Serve

/-- All that a connection goes through on its own: no packet comes in, and none is taken away. -/
def Input.Spontaneous : Input → Prop
  | .packet _ | .told => False
  | _ => True

theorem releaseAll_silent (s : Scene) : s.Silent s.releaseAll := by
  unfold Scene.releaseAll
  generalize s.conn.registry.roots = roots
  induction roots generalizing s with
  | nil => exact .refl s
  | cons name rest ih => exact (Scene.Silent.release s name).trans (ih _)

theorem sent_close (s : Scene) : (close s).conn.sent = s.conn.sent := (releaseAll_silent s).sent

theorem sent_packet (s : Scene) (request : Fields) :
    ∃ said, (step s (.packet (.obj request))).conn.sent = s.conn.sent ++ said ∧
      ∀ p ∈ said, Request.Answers request p := by
  dsimp only [step]
  split
  · have speaks := Request.handle_speaks s request
    dsimp only [receive]
    split
    · exact speaks.sent
    · rw [sent_close]
      exact speaks.sent
  · exact ⟨[], (List.append_nil _).symm, fun _ none => nomatch none⟩

theorem follow_speaks (s : Scene) (event : Event) : Act.Speaks Event.Unasked (follow s event) :=
  .follow (fun _ _ _ _ keys => Event.unasked_packet keys) s event

theorem sent_spontaneous (s : Scene) {input : Input} (spontaneous : input.Spontaneous) :
    ∃ said, (step s input).conn.sent = s.conn.sent ++ said ∧ ∀ p ∈ said, Event.Unasked p := by
  have following : Following (Act.Speaks Event.Unasked) :=
    Act.Speaks.following fun sender {type members} _ keys => Event.unasked_packet keys
  have nothing (t : Scene) (same : t.conn.sent = s.conn.sent) :
      ∃ said, t.conn.sent = s.conn.sent ++ said ∧ ∀ p ∈ said, Event.Unasked p :=
    ⟨[], by rw [same, List.append_nil], fun _ none => nomatch none⟩
  cases input with
  | packet packet => exact spontaneous.elim
  | told => exact spontaneous.elim
  | event event =>
    dsimp only [step, onEvent]
    split
    · exact (follow_speaks s event s trivial).sent
    · exact nothing s rfl
  | entered tracer frame => exact (following.onEnter tracer frame s trivial).sent
  | left tracer completion => exact (following.onPop tracer completion s trivial).sent
  | lineBroken =>
    dsimp only [step]
    split
    · exact nothing _ rfl
    · exact nothing _ rfl
  | hungUp =>
    dsimp only [step]
    split
    · exact nothing _ (sent_close s)
    · exact nothing _ rfl

end Serve

end RemoteInspector
