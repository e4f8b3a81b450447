import RemoteInspector.Proofs.Serve.Life
/-!
Relations that hold across every turn of a connection, as soon as they hold for its deeds.
-/
namespace RemoteInspector

/-- Whatever comes to a connection but a packet of its client. -/
def Serve.Input.Calm : Serve.Input → Prop
  | .packet _ => False
  | _ => True

def Serve.Input.frame? : Serve.Input → Option String
  | .entered tracer _ | .left tracer _ => some tracer
  | _ => none

/-- Whatever comes to a connection but an event by which a tab comes or goes. -/
def Serve.Input.Fixed : Serve.Input → Prop
  | .event news => news.Fixed
  | _ => True

/-- A relation that the deeds of a connection keep, and whatever it writes. -/
structure Steady (R : Scene → Scene → Prop) : Prop where
  refl : ∀ s, R s s
  trans : ∀ {s t u}, R s t → R t u → R s u
  deeds : Deeds (Act.Keeps (fun _ => True) R)
  write : ∀ s packet, R s (s.write packet)
  /-- The line, the stage and what has been sent are nobody's concern. -/
  standing : ∀ s {f : Connection → Connection},
    (∀ c, (f c).id = c.id ∧ (f c).registry = c.registry ∧ (f c).tracings = c.tracings) → R s (s.setConn f)

/-- A relation that the coming and going of tabs keeps, too. -/
structure Steady.Opening (R : Scene → Scene → Prop) : Prop extends Steady R where
  registerTab : ∀ id page, Act.Keeps (fun _ => True) R (Tabs.register id page)
  root : ∀ f, Act.Keeps (fun _ => True) R (Tabs.updateRoot f)

/-- A relation that the walkers keep, too, when documents change. -/
structure Attending (R : Scene → Scene → Prop) : Prop extends Steady R where
  queue : ∀ walker (f : List Mutation → List Mutation),
    Act.Keeps (fun _ => True) R (Act.updateWalker walker fun w => { w with queue := f w.queue })
  changes : ∀ walker changes, Act.Keeps (fun _ => True) R (Walker.onChanges walker changes)

/-- A relation that consoles keep, too, when they follow the requests of their pages. -/
structure Watching (R : Scene → Scene → Prop) : Prop extends Attending R where
  request : ∀ console n, Act.Keeps (fun _ => True) R (Act.register "netEvent" console (.network n))
  enlist : ∀ console id name,
    Act.Keeps (fun _ => True) R (Act.updateConsole console fun c => { c with requests := c.requests.insert id name })
  onUpdate : ∀ console c id event, Act.Keeps (fun _ => True) R (Network.onUpdate console c id event)

/-- A relation that the news of a site keep, too; debuggers and tabs are left aside. -/
structure Enduring (R : Scene → Scene → Prop) : Prop extends Watching R where
  onEnter : ∀ tracer frame, Act.Keeps (fun _ => True) R (Tracer.onEnter tracer frame)
  onPop : ∀ tracer completion, Act.Keeps (fun _ => True) R (Tracer.onPop tracer completion)

structure Enduring.Tabbed (R : Scene → Scene → Prop) : Prop extends Enduring R, Steady.Opening R

structure Lasting (R : Scene → Scene → Prop) : Prop extends Enduring.Tabbed R where
  decide : ∀ {s self method packet actor act}, s.find? self = some actor →
    Request.decide s self method packet actor = .ok act → R s (act.after s)

namespace Steady

variable {R : Scene → Scene → Prop} (steady : Steady R)

include steady

theorem release (s : Scene) (name : String) : R s (s.release name) := steady.deeds.release name s trivial

theorem close (s : Scene) : R s (Serve.close s) := by
  have released : R s s.releaseAll := by
    unfold Scene.releaseAll
    generalize s.conn.registry.roots = roots
    induction roots generalizing s with
    | nil => exact steady.refl s
    | cons name rest ih => exact steady.trans (steady.release s name) (ih _)
  exact steady.trans released (steady.standing _ fun _ => ⟨rfl, rfl, rfl⟩)

/-- What a packet does is what the handler does that takes it on. -/
theorem handle (s : Scene) (packet : Fields)
    (decide : ∀ {self actor type method act}, (packet.get? "to").bind Json.string? = some self →
      s.find? self = some actor → (packet.get? "type").bind Json.string? = some type →
      actor.schema.check type packet = .ok method →
      Request.decide s self method.name packet actor = .ok act → R s (act.after s)) :
    R s (Request.handle s packet).1 := by
  unfold Request.handle
  split
  · exact steady.write s _
  · rename_i addressed
    split
    · exact steady.write s _
    · rename_i live
      split
      · exact steady.write s _
      · rename_i typed
        split
        · exact steady.write s _
        · rename_i checked
          dsimp only
          rw [Request.perform_eq]
          split
          · exact steady.write s _
          · rename_i decided
            have done (reply : Json) :=
              steady.trans (decide addressed live typed checked decided) (steady.write _ reply)
            dsimp only
            split
            · exact steady.trans (done _) (steady.release _ _)
            · exact done _

theorem packet (s : Scene) (packet : Json) (handle : ∀ fields, R s (Request.handle s fields).1) :
    R s (Serve.step s (.packet packet)) := by
  dsimp only [Serve.step]
  split
  · unfold Serve.receive
    split
    · dsimp only
      split
      · exact handle _
      · exact steady.trans (handle _) (steady.close _)
    · exact steady.refl s
  · exact steady.refl s

/-- Whatever comes to a connection but a packet is an event, a frame or the end of the line. -/
theorem calm (s : Scene) {input : Serve.Input} (calm : input.Calm)
    (event : ∀ news, input = .event news → Act.Keeps (fun _ => True) R (Serve.follow s news))
    (onEnter : ∀ tracer frame, input = .entered tracer frame →
      Act.Keeps (fun _ => True) R (Tracer.onEnter tracer frame))
    (onPop : ∀ tracer completion, input = .left tracer completion →
      Act.Keeps (fun _ => True) R (Tracer.onPop tracer completion)) : R s (Serve.step s input) := by
  cases input with
  | packet packet => exact calm.elim
  | event news =>
    dsimp only [Serve.step, Serve.onEvent]
    split
    · exact event news rfl s trivial
    · exact steady.refl s
  | entered tracer frame => exact onEnter tracer frame rfl s trivial
  | left tracer completion => exact onPop tracer completion rfl s trivial
  | lineBroken =>
    dsimp only [Serve.step]
    split
    · exact steady.standing s fun _ => ⟨rfl, rfl, rfl⟩
    · exact steady.refl s
  | hungUp =>
    dsimp only [Serve.step]
    split
    · exact steady.close s
    · exact steady.refl s
  | told =>
    dsimp only [Serve.step]
    exact steady.standing s fun _ => ⟨rfl, rfl, rfl⟩

end Steady

namespace Steady.Opening

variable {R : Scene → Scene → Prop} (steady : Steady.Opening R)

include steady

theorem tabbed : Deeds.Tabbed (Act.Keeps (fun _ => True) R) :=
  { steady.deeds with registerTab := steady.registerTab, root := steady.root }

/-- A connection begins with the root alone. -/
theorem start (site : Site) (id : ConnectionId) (line : Line) (tabs : Table TabId PageId) :
    R (Serve.rooted site id line) (Serve.start ⟨site, { id, line }⟩ tabs) := by
  have added := steady.deeds.law.forM_mem
    (fun (entry : TabId × PageId) (_ : entry ∈ tabs) => steady.tabbed.addTab entry.1 entry.2)
    (Serve.rooted site id line) trivial
  have greeted : R (Serve.rooted site id line) (Serve.greeted site id line tabs) :=
    steady.trans added (steady.write _ Tabs.greeting)
  rw [Serve.start_eq]
  split
  · exact greeted
  · exact steady.trans greeted (steady.close _)

end Steady.Opening

namespace Attending

variable {R : Scene → Scene → Prop} (attending : Attending R)

include attending

theorem queued (walker : String) (w : WalkerActor) (records : List Mutation) :
    Act.Keeps (fun _ => True) R (Walker.queue walker w records) :=
  Walker.queue_law attending.deeds.law w (attending.queue walker (· ++ records)) fun s _ => attending.write s _

theorem follow (s : Scene) {event : Event} (fixed : event.Fixed) (unrequested : event.Unrequested) :
    Act.Keeps (fun _ => True) R (Serve.follow s event) := by
  have deeds := attending.deeds
  have telling : Deeds.Telling (Act.Keeps (fun _ => True) R) :=
    { deeds with event := fun _ _ _ _ _ s _ => attending.write s _ }
  exact Serve.follow_law deeds.law (telling.follow s · fixed unrequested) (deeds.walkers s) attending.changes
    (fun walker => Walker.onFrameLoad_law deeds.law deeds.read (attending.queued walker))
    fun walker document =>
      Walker.onDocumentUnload_law deeds.law deeds.read (attending.queued walker) document (deeds.releaseNode walker)

end Attending

namespace Watching

variable {R : Scene → Scene → Prop} (watching : Watching R)

include watching

theorem follow (s : Scene) {event : Event} (fixed : event.Fixed) :
    Act.Keeps (fun _ => True) R (Serve.follow s event) := by
  cases event with
  | network tab request event =>
    have monitoring : Deeds.Monitoring (Act.Keeps (fun _ => True) R) :=
      { watching.deeds with
        event := fun _ _ _ _ _ s _ => watching.write s _
        request := watching.request
        enlist := watching.enlist
        onUpdate := watching.onUpdate }
    exact monitoring.follow s trivial fixed
  | _ => exact watching.toAttending.follow s fixed trivial

theorem follow_tabbed (opening : Steady.Opening R) (s : Scene) (event : Event) :
    Act.Keeps (fun _ => True) R (Serve.follow s event) := by
  cases event with
  | tabAdded tab page => exact opening.tabbed.addTab tab page
  | tabClosed tab => exact opening.tabbed.removeTab tab
  | _ => exact watching.follow s trivial

end Watching

namespace Enduring

variable {R : Scene → Scene → Prop} (lasting : Enduring R)

include lasting

theorem fixed (s : Scene) {input : Serve.Input} (calm : input.Calm) (fixed : input.Fixed) :
    R s (Serve.step s input) := by
  refine lasting.toSteady.calm s calm (fun news same => ?_) (fun tracer frame _ => lasting.onEnter tracer frame)
    fun tracer completion _ => lasting.onPop tracer completion
  subst same
  exact lasting.follow s fixed

end Enduring

namespace Enduring.Tabbed

variable {R : Scene → Scene → Prop} (lasting : Enduring.Tabbed R)

include lasting

theorem calm (s : Scene) {input : Serve.Input} (calm : input.Calm) : R s (Serve.step s input) := by
  exact lasting.toSteady.calm s calm (fun news _ => lasting.follow_tabbed lasting.toOpening s news)
    (fun tracer frame _ => lasting.onEnter tracer frame) fun tracer completion _ => lasting.onPop tracer completion

end Enduring.Tabbed

namespace Lasting

variable {R : Scene → Scene → Prop} (lasting : Lasting R)

include lasting

theorem handle (s : Scene) (packet : Fields) : R s (Request.handle s packet).1 :=
  lasting.toEnduring.handle s packet fun _ live _ _ decided => lasting.decide live decided

theorem step (s : Scene) (input : Serve.Input) : R s (Serve.step s input) := by
  cases input with
  | packet packet => exact lasting.toEnduring.packet s packet (lasting.handle s)
  | _ => exact lasting.calm s trivial

end Lasting

end RemoteInspector
