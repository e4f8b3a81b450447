import RemoteInspector.Proofs.Serve.Effects
import RemoteInspector.Proofs.Serve.Turns
/-!
Starts of traces: a tracer's traces only become fewer, until a packet starts one.
-/
namespace RemoteInspector

variable {input : Serve.Input}

namespace Scene

def Shrinks (x : String) (s t : Scene) : Prop := (s.tracing x).Shrinks (t.tracing x)

namespace Shrinks

variable {x : String} {s t u : Scene}

theorem refl (x : String) (s : Scene) : s.Shrinks x s := Tracing.Shrinks.refl _

theorem trans (first : Shrinks x s t) (next : Shrinks x t u) : Shrinks x s u := Tracing.Shrinks.trans first next

theorem of_eq (same : t.tracing x = s.tracing x) : Shrinks x s t := by
  unfold Shrinks
  rw [same]
  exact .refl _

theorem of_tracings (same : t.conn.tracings = s.conn.tracings) : Shrinks x s t := of_eq (tracing_congr same x)

theorem detach (s : Scene) (name : String) : Shrinks x s (s.detach name) := by
  unfold Shrinks
  rw [tracing_detach]
  split
  · exact .detach _
  · exact .refl _

theorem releaseOne (s : Scene) (name : String) : Shrinks x s (s.releaseOne name) := by
  by_cases trace : ∃ host, s.find? name = some (.trace host)
  · obtain ⟨host, found⟩ := trace
    unfold Scene.releaseOne
    rw [found]
    have removed : Shrinks x s (s.setRegistry (·.remove name)) := .of_tracings rfl
    exact removed.trans (.detach _ name)
  · exact .of_tracings (tracings_releaseOne (not_exists.mp trace))

theorem release (s : Scene) (name : String) : Shrinks x s (s.release name) :=
  release_rel (refl x) (fun first next => first.trans next) releaseOne s name

theorem setTracing_other {name : String} {f : Tracing → Tracing} (s : Scene) (other : x ≠ name) :
    Shrinks x s (s.setTracing name f) := by
  refine of_eq ?_
  rw [tracing_setTracing, if_neg other]

theorem tracing_write (s : Scene) (packet : Json) (x : String) : (s.write packet).tracing x = s.tracing x := by
  unfold Scene.write
  split <;> rfl

theorem write (s : Scene) (packet : Json) : Shrinks x s (s.write packet) := of_eq (tracing_write s packet x)

end Shrinks

end Scene

open Scene (Shrinks)

namespace Act

abbrev Shrinking (x : String) {γ : Type} (act : Act γ) : Prop := Keeps (fun _ => True) (Shrinks x) act

namespace Shrinking

variable {x : String}

theorem law : Law (Shrinking x) := keeps_law (fun s _ => .refl x s) (fun first next => first.trans next) fun _ _ => trivial

theorem get : Shrinking x (get : Act Scene) := fun s _ => .refl x s

theorem update (name : String) (f : Actor → Actor) : Shrinking x (update name f) := fun _ _ => .of_tracings rfl

theorem site (f : Site → Site) : Shrinking x (site f) := fun _ _ => .of_tracings rfl

theorem event (packet : Json) : Shrinking x (event packet) := fun s _ => .write s packet

theorem plain (x : String) : Tending.Plain (Shrinking x) where
  law := law
  read := get
  site := site
  call _ _ _ _ _ _ := .of_tracings rfl
  name _ _ _ := .of_tracings rfl
  register _ _ _ _ _ := .of_tracings rfl
  registerAs _ _ _ _ _ _ := .of_tracings rfl
  scripts _ _ _ := .of_tracings rfl
  update name _ _ := update name _
  release name s _ := .release s name

theorem queue (walker : String) (w : WalkerActor) (records : List Mutation) :
    Shrinking x (Walker.queue walker w records) := Walker.queue_law law w (update walker _) (event _)

theorem report {tracer : String} (other : x ≠ tracer) (type : String)
    (details : Site → Tracing → Site × List (String × Json)) : Shrinking x (Tracer.report tracer type details) := by
  refine Tracer.report_law law get ?_ site fun _ _ => event _
  exact fun s _ => Shrinks.setTracing_other (f := fun t => { t with sequence := t.sequence + 1 }) s other

theorem opening (x : String) : Steady.Opening (Shrinks x) where
  refl := .refl x
  trans := .trans
  deeds := (plain x).deeds
  write := .write
  standing s _ same := .of_tracings (same s.conn).2.2
  registerTab := (plain x).registerTab
  root _ := update _ _

theorem watching (x : String) : Watching (Shrinks x) where
  toSteady := (opening x).toSteady
  queue walker _ := update walker _
  changes walker changes := Walker.onChanges_law law get (queue walker) changes fun _ => update walker _
  request _ _ _ _ := .of_tracings rfl
  enlist console _ _ := update console _
  onUpdate console c id event := by
    refine law.bind get fun s => ?_
    dsimp only
    split
    · exact update console _
    · split
      · exact law.pure _
      · exact law.bind (update _ _) fun _ => Shrinking.event _

end Shrinking

end Act

/-! ### Packets -/

namespace Tracer

variable {name host : String}

variable {s : Scene} {self x : String} {packet : Fields}

/-- The trace that a packet starts: it has to be for the tracer and well formed, all the details have to be known,
and the tracer has to be attached. -/
def starts? (s : Scene) (self : String) (packet : Fields) : Option String :=
  match s.find? self with
  | some (.trace _) =>
    if (packet.get? "to").bind Json.string? = some self ∧
        (packet.get? "type").bind Json.string? = some "startTrace" ∧
        (Schema.trace.check "startTrace" packet).isOk ∧ (types packet).isOk ∧ (s.tracing self).debugger.isSome then
      some ((s.tracing self).nameFor ((packet.get? "name").bind Json.string?))
    else none
  | _ => none

theorem starts?_eq_some (starts : starts? s self packet = some name) :
    ∃ host, s.find? self = some (.trace host) ∧ (packet.get? "to").bind Json.string? = some self ∧
      (packet.get? "type").bind Json.string? = some "startTrace" ∧
      (Schema.trace.check "startTrace" packet).isOk ∧ (types packet).isOk ∧ (s.tracing self).debugger.isSome ∧
      name = (s.tracing self).nameFor ((packet.get? "name").bind Json.string?) := by
  unfold starts? at starts
  split at starts
  · rename_i host found
    split at starts
    · rename_i accepted
      obtain ⟨addressed, typed, checked, known, attached⟩ := accepted
      exact ⟨host, found, addressed, typed, checked, known, attached, (Option.some.inj starts).symm⟩
    · cases starts
  · cases starts

theorem tracing_start (t : Tracing) (id : DebuggerId) (given : Option String) (types : List TraceType) (x : String) :
    ((start self t id given types).after s).tracing x =
      if x = self then (s.tracing x).start given types else s.tracing x := by
  unfold start
  split
  · exact Scene.tracing_setTracing (s.setSite (·.setEnabled s.conn.id id true)) self (·.start given types) x
  · exact Scene.tracing_setTracing s self (·.start given types) x

theorem tracing_stop (t : Tracing) (id : DebuggerId) (name x : String) :
    ((stop self t id name).after s).tracing x = if x = self then (s.tracing x).stop name else s.tracing x := by
  rw [← Scene.tracing_setTracing s self (·.stop name)]
  unfold stop
  simp only [Act.after_bind, Act.after_modify]
  split <;> rfl

section

variable {type : String} {method : Method} (found : s.find? self = some (.trace host))
  (addressed : (packet.get? "to").bind Json.string? = some self)
  (typed : (packet.get? "type").bind Json.string? = some type) (checked : Schema.trace.check type packet = .ok method)

include found addressed typed checked

theorem handle_eq :
    (Request.handle s packet).1 = match decide s self host type packet with
      | .error r => s.write (Request.withId packet (r.packet self))
      | .ok act => (act.after s).write (Request.withId packet (.object (("from", .str self) :: act.result s))) := by
  have named : method.name = type := by simpa using List.find?_some (Schema.check_ok checked)
  have stays : method.release = false := by
    have listed := List.mem_of_find?_eq_some (Schema.check_ok checked)
    simp only [Schema.trace, List.mem_cons, List.not_mem_nil, or_false] at listed
    rcases listed with rfl | rfl | rfl | rfl <;> rfl
  have checked : (Actor.trace host).schema.check type packet = .ok method := checked
  have handled : (Request.handle s packet).1 = Request.perform s packet self method (.trace host) := by
    unfold Request.handle
    simp only [addressed, found, typed, checked]
  have decision : Request.decide s self method.name packet (.trace host) = decide s self host type packet := by
    rw [named]
    rfl
  rw [handled, Request.perform_eq, decision]
  cases decide s self host type packet with
  | error r => rfl
  | ok act => simp only [stays, Bool.false_and, Bool.false_eq_true, if_false]

theorem tracing_handle :
    (Request.handle s packet).1.tracing self = match decide s self host type packet with
      | .error _ => s.tracing self
      | .ok act => (act.after s).tracing self := by
  rw [handle_eq found addressed typed checked]
  cases decide s self host type packet <;> exact Scene.Shrinks.tracing_write _ _ _

end

theorem starts_handled (starts : starts? s self packet = some name) :
    let given := (packet.get? "name").bind Json.string?
    name = (s.tracing self).nameFor given ∧ ∃ id details, types packet = .ok details ∧
      (Request.handle s packet).1 = ((start self (s.tracing self) id given details).after s).write
        (Request.withId packet (.object (("from", .str self) :: traceReply "startedTrace" name))) := by
  intro given
  obtain ⟨host, found, addressed, typed, checked, known, attached, same⟩ := starts?_eq_some starts
  obtain ⟨id, attached⟩ := Option.isSome_iff_exists.mp attached
  cases accepted : Schema.trace.check "startTrace" packet with
  | error r => simp [accepted, Except.isOk, Except.toBool] at checked
  | ok method =>
    cases details : types packet with
    | error r => simp [details, Except.isOk, Except.toBool] at known
    | ok types =>
      have taken : decide s self host "startTrace" packet = .ok (do
          start self (s.tracing self) id given types
          return traceReply "startedTrace" ((s.tracing self).nameFor given)) := by
        simp only [decide, details, attached]
        rfl
      refine ⟨same, id, types, rfl, ?_⟩
      rw [handle_eq found addressed typed accepted, taken, same]
      rfl

theorem handle_starts (starts : starts? s self packet = some name) :
    let given := (packet.get? "name").bind Json.string?
    name = (s.tracing self).nameFor given ∧ ∃ details, types packet = .ok details ∧
      (Request.handle s packet).1.tracing self = (s.tracing self).start given details := by
  intro given
  obtain ⟨same, id, details, known, after⟩ := starts_handled starts
  refine ⟨same, details, known, ?_⟩
  rw [after, Scene.Shrinks.tracing_write, tracing_start, if_pos rfl]

theorem decide_shrinks {method : String} {act : Act Reply} (other : method ≠ "startTrace")
    (accepted : decide s self host method packet = .ok act) : Shrinks x s (act.after s) := by
  unfold decide at accepted
  dsimp only at accepted
  split at accepted
  · split at accepted
    · cases accepted
    · cases accepted
      change Shrinks x s ((attach self host).after s)
      unfold Scene.Shrinks
      rw [Scene.tracing_attach]
      split <;> exact ⟨.refl _, rfl, rfl⟩
  · cases accepted
    exact Scene.Shrinks.detach s self
  · exact absurd rfl other
  · split at accepted
    · split at accepted
      · cases accepted
      · cases accepted
        unfold Scene.Shrinks
        simp only [Act.after_bind, Act.after_pure, tracing_stop]
        split
        · exact .stop _ _
        · exact .refl _
    · cases accepted
  · cases accepted

theorem steps_other (other : x ≠ self) : Steps (Act.Shrinking x) self :=
  .of_site Act.Shrinking.law Act.Shrinking.get Act.Shrinking.site
    (fun _ s _ => Scene.Shrinks.setTracing_other s other) fun s _ => .detach s self

theorem handle_shrinks (idle : starts? s x packet = none) : Shrinks x s (Request.handle s packet).1 := by
  refine (Act.Shrinking.opening x).handle s packet
    fun {self actor type method act} addressed live typed checked decided => ?_
  have plain := Act.Shrinking.plain x
  by_cases tracer : self = x ∧ ∃ host, actor = .trace host
  · obtain ⟨rfl, host, rfl⟩ := tracer
    refine decide_shrinks (fun asked => ?_) decided
    -- a packet that asks for a start and is taken on is one that starts a trace
    have named : method.name = type := by simpa using List.find?_some (Schema.check_ok checked)
    rw [named] at asked decided
    subst asked
    obtain ⟨types, details, decided⟩ := Decision.bind_ok decided
    cases attached : (s.tracing self).debugger with
    | none => simp [attached] at decided
    | some id =>
      have checked : Schema.trace.check "startTrace" packet = .ok method := checked
      have accepted : starts? s self packet =
          some ((s.tracing self).nameFor ((packet.get? "name").bind Json.string?)) := by
        unfold starts?
        rw [live]
        exact if_pos ⟨addressed, typed, by rw [checked]; rfl, by rw [details]; rfl, by rw [attached]; rfl⟩
      cases idle.symm.trans accepted
  · have steps : actor.Steps (Act.Shrinking x) s self :=
      plain.deeds.handler s self actor (fun _ => plain.ref _ _) (fun _ _ => Act.Shrinking.update self _)
        (fun c _ => .of_site (plain.deeds.gripping self) Act.Shrinking.site (fun _ => plain.updateConsole self _) c)
        fun host same => steps_other fun here => tracer ⟨here.symm, host, same⟩
    exact (Request.decide_answering Act.Shrinking.law steps decided).law s trivial

/-- A packet that asks to stop and names no trace stops the one that is listed first. -/
theorem handle_stop (sound : (s.tracing self).Sound) (found : s.find? self = some (.trace host))
    (addressed : packet.get? "to" = some (.str self)) (typed : packet.get? "type" = some (.str "stopTrace"))
    (unnamed : packet.get? "name" = none) : (Request.handle s packet).1.tracing self =
      ((s.tracing self).chosen? none).elim (s.tracing self) (s.tracing self).stop := by
  have addressed : (packet.get? "to").bind Json.string? = some self := by rw [addressed]; rfl
  have typed : (packet.get? "type").bind Json.string? = some "stopTrace" := by rw [typed]; rfl
  have absent : (Schema.option "name" (.nullable .string)).check packet = .ok () := by
    have none : packet.get? (Schema.option "name" (.nullable .string)).name = none := unnamed
    rw [Parameter.check, none]
    rfl
  have checked : Schema.trace.check "stopTrace" packet = .ok (Schema.trace.methods.get ⟨3, by decide⟩) := by
    change ((Schema.option "name" (.nullable .string)).check packet >>= fun _ => pure PUnit.unit) >>= _ = _
    rw [absent]
    rfl
  rw [tracing_handle found addressed typed checked]
  cases traces : (s.tracing self).active with
  | nil =>
    have refused : decide s self host "stopTrace" packet = .error .noActiveTraces := by
      simp only [decide, traces, List.isEmpty_nil]
      cases (s.tracing self).debugger <;> rfl
    have first : (s.tracing self).chosen? none = none := by simp [Tracing.chosen?, traces]
    rw [refused, first]
    rfl
  | cons trace rest =>
    obtain ⟨id, attached⟩ : ∃ id, (s.tracing self).debugger = some id := by
      refine Option.ne_none_iff_exists'.mp fun none => ?_
      simp [sound.detached none] at traces
    have first : (s.tracing self).chosen? none = some trace.1 := by simp [Tracing.chosen?, traces]
    have taken : decide s self host "stopTrace" packet = .ok (do
        stop self (s.tracing self) id trace.1
        return traceReply "stoppedTrace" trace.1) := by
      simp [decide, traces, attached, unnamed, first]
    rw [taken, first]
    simp only [Act.after_bind, Act.after_pure, tracing_stop, if_true, Option.elim_some]

end Tracer

/-! ### Turns -/

def Serve.Input.starts? (s : Scene) (x : String) : Serve.Input → Option String
  | .packet (.obj fields) => if s.conn.isOpen then Tracer.starts? s x fields else none
  | _ => none

theorem Serve.Input.Calm.starts? (calm : input.Calm) (s : Scene) (x : String) : input.starts? s x = none := by
  cases input with
  | packet packet => exact calm.elim
  | _ => rfl

theorem Serve.step_framed {s : Scene} {x tracer : String} (framed : input.frame? = some tracer) :
    (Serve.step s input).tracing x =
      if x = tracer then { s.tracing x with sequence := (s.tracing x).sequence + 1 } else s.tracing x := by
  have reported (type : String) (details : Site → Tracing → Site × List (String × Json)) :
      ((Tracer.report tracer type details).after s).tracing x =
        if x = tracer then { s.tracing x with sequence := (s.tracing x).sequence + 1 } else s.tracing x :=
    (Shrinks.tracing_write _ _ _).trans
      (Scene.tracing_setTracing _ tracer (fun t => { t with sequence := t.sequence + 1 }) x)
  cases input with
  | entered tracer frame =>
    cases framed
    exact reported _ _
  | left tracer completion =>
    cases framed
    exact reported _ _
  | _ => cases framed

theorem Serve.step_shrinks {s : Scene} {x : String} (idle : input.starts? s x = none)
    (unframed : input.frame? ≠ some x) : s.Shrinks x (Serve.step s input) := by
  have opening := Act.Shrinking.opening x
  by_cases calm : input.Calm
  · refine opening.toSteady.calm s calm
      (fun news _ => (Act.Shrinking.watching x).follow_tabbed opening s news) (fun tracer frame same => ?_)
      fun tracer completion same => ?_
    · subst same
      exact Act.Shrinking.report (fun here => unframed (congrArg some here.symm)) _ _
    · subst same
      exact Act.Shrinking.report (fun here => unframed (congrArg some here.symm)) _ _
  · cases input with
    | packet packet =>
      dsimp only [Serve.step]
      split
      · rename_i isOpen
        cases packet with
        | obj packet =>
          simp only [Serve.Input.starts?, isOpen, if_true] at idle
          have handled := Tracer.handle_shrinks idle
          dsimp only [Serve.receive]
          split
          · exact handled
          · exact handled.trans (opening.close _)
        | _ => exact .refl x s
      · exact .refl x s
    | _ => exact absurd trivial calm

/-- A turn that starts a trace is a packet; where the line is broken, that is the end of the trace. -/
theorem Serve.step_starts {s : Scene} {x name : String} (starts : input.starts? s x = some name) :
    ∃ packet : Fields, input = .packet (.obj packet) ∧
      Tracer.starts? s x packet = some name ∧ (Request.handle s packet).1.Shrinks x (Serve.step s input) := by
  cases input with
  | packet packet =>
    cases packet with
    | obj packet =>
      dsimp only [Serve.Input.starts?] at starts
      split at starts
      · rename_i isOpen
        refine ⟨packet, rfl, starts, ?_⟩
        dsimp only [Serve.step]
        rw [if_pos isOpen]
        dsimp only [Serve.receive]
        split
        · exact .refl x _
        · exact (Act.Shrinking.opening x).close _
      · cases starts
    | _ => cases starts
  | _ => cases starts

theorem Serve.step_recent {s : Scene} {x : String} {started : List String} (recent : (s.tracing x).Recent started)
    (input : Serve.Input) : ((Serve.step s input).tracing x).Recent ((input.starts? s x).toList ++ started) := by
  cases starts : input.starts? s x with
  | some name =>
    obtain ⟨packet, -, asked, ended⟩ := Serve.step_starts starts
    obtain ⟨rfl, types, -, after⟩ := Tracer.handle_starts asked
    refine ended.recent ?_
    rw [after]
    exact recent.start _ types
  | none =>
    by_cases framed : input.frame? = some x
    · rw [Serve.step_framed framed, if_pos rfl]
      exact recent
    · exact (Serve.step_shrinks starts framed).recent recent

end RemoteInspector
