import Mathlib.Logic.Relation
import RemoteInspector.Proofs.Serve.Turns
import RemoteInspector.Proofs.Site
import RemoteInspector.Server
/-!
Runs of a server: what happens to it, and then turns of single connections.
-/
namespace RemoteInspector

open Relation (ReflTransGen)

namespace Server

variable {v w : Server} {id : ConnectionId} {conn : Connection}

/-! ### One connection acts -/

theorem settle_eq (quiet : v.site.mail = []) : v.settle = v := by
  obtain ⟨site, tabs, connections, next, running⟩ := v
  dsimp only at quiet
  simp only [settle, quiet, List.foldl_nil]
  rw [← quiet]

theorem id_of_connection? (found : v.connection? id = some conn) : conn.id = id := by
  simpa using List.find?_some found

theorem onConnection_none (absent : v.connection? id = none) (f : Scene → Scene) : v.onConnection id f = v := by
  unfold onConnection
  rw [absent]

section

variable (found : v.connection? id = some conn) {f : Scene → Scene} {t : Scene} (acts : f ⟨v.site, conn⟩ = t)
  (same : t.conn.id = conn.id)

include found acts same

/-- One connection acts, on its own state and on the site; the others stay as they are. -/
theorem connection?_onConnection (id' : ConnectionId) :
    (v.onConnection id f).connection? id' = if id' = id then some t.conn else v.connection? id' := by
  have named : t.conn.id = id := same.trans (id_of_connection? found)
  unfold onConnection
  rw [found]
  dsimp only
  rw [acts]
  unfold connection? at found ⊢
  dsimp only
  rw [List.find?_map]
  have whose : ((fun c : Connection => c.id == id') ∘ fun c => if c.id == id then t.conn else c) =
      fun c => c.id == id' := by
    funext c
    by_cases here : c.id = id <;> simp [here, named]
  rw [whose]
  by_cases here : id' = id
  · subst here
    rw [found]
    simp [id_of_connection? (v := v) found]
  · rw [if_neg here]
    cases other : v.connections.find? (fun c => c.id == id') with
    | none => rfl
    | some c =>
      have elsewhere : c.id ≠ id := by
        rw [id_of_connection? (v := v) other]
        exact here
      simp [elsewhere]

theorem onConnection_eq : (v.onConnection id f).connection? id = some t.conn ∧ (v.onConnection id f).site = t.site := by
  refine ⟨?_, ?_⟩
  · rw [connection?_onConnection found acts same, if_pos rfl]
  · unfold onConnection
    rw [found]
    dsimp only
    rw [acts]

end

theorem nextConnection_onConnection (v : Server) (id : ConnectionId) (f : Scene → Scene) :
    (v.onConnection id f).nextConnection = v.nextConnection := by
  unfold onConnection
  split <;> rfl

/-! ### What happens to a server -/

/-- Clients come, speak and go, hosts report what happens on them, and reports are fetched. -/
inductive Op
  | connect (shared broken : Bool)
  | receive (id : ConnectionId) (packet : Json)
  | hangUp (id : ConnectionId)
  | breakLine (id : ConnectionId)
  | shutdown
  | newPage (tab : TabId) (host : String) (info : PageInfo)
  | titleChanged (tab : TabId) (title : String)
  | consoleMessage (tab : TabId) (message : ConsoleMessage)
  | pageError (tab : TabId) (error : PageError)
  | fileActivity (tab : TabId) (uri : String)
  | networkEvent (tab : TabId) (request : String) (event : NetworkEvent)
  | frameLoad (tab : TabId) (frame : NodeId)
  | documentUnload (tab : TabId) (document : NodeId)
  | tabClosed (tab : TabId)
  | edit (host : String) (edits : List Dom.Edit)
  | addObjects (host : String) (objects : List (ObjectId × ScriptObject))
  | pause (host : String) (frames : List PausedFrame)
  | enterFrame (host : String) (frame : LiveFrame)
  | popFrame (host : String) (completion : Completion Value)
  | newGlobal (host : String) (global : GlobalId) (parent : Option GlobalId)
  | report

/-- The server after it. -/
def apply (v : Server) : Op → Server
  | .connect shared broken => (v.connect shared broken).1
  | .receive id packet => v.receive id packet
  | .hangUp id => v.hangUp id
  | .breakLine id => v.breakLine id
  | .shutdown => v.shutdown
  | .newPage tab host info => v.newPage tab host info
  | .titleChanged tab title => v.titleChanged tab title
  | .consoleMessage tab message => v.consoleMessage tab message
  | .pageError tab error => v.pageError tab error
  | .fileActivity tab uri => v.fileActivity tab uri
  | .networkEvent tab request event => v.networkEvent tab request event
  | .frameLoad tab frame => v.frameLoad tab frame
  | .documentUnload tab document => v.documentUnload tab document
  | .tabClosed tab => v.tabClosed tab
  | .edit host edits => v.edit host edits
  | .addObjects host objects => v.addObjects host objects
  | .pause host frames => v.pause host frames
  | .enterFrame host frame => v.enterFrame host frame
  | .popFrame host completion => (v.popFrame? host completion).getD v
  | .newGlobal host global parent => (v.newGlobal host global parent).1
  | .report => v.reported

/-- The server after a number of operations. What one of them sends on, to whichever connection, arrives before the
next. -/
def run (v : Server) (ops : List Op) : Server := ops.foldl apply v

/-- The calls that have been told by a report. -/
def Op.told (v : Server) : Op → List LogEntry
  | .report => v.site.log
  | _ => []

/-- All calls on hosts that have been told in a run. -/
def told (v : Server) : List Op → List LogEntry
  | [] => []
  | op :: rest => op.told v ++ told (v.apply op) rest

/-- All calls made on hosts in a run, whether they have been told or not. -/
def history (v : Server) (ops : List Op) : List LogEntry := told v ops ++ (run v ops).site.log

theorem run_append (v : Server) (ops : List Op) (op : Op) : run v (ops ++ [op]) = (run v ops).apply op := by
  rw [run, List.foldl_append]
  rfl

/-! ### Steps -/

def Op.Framed : Op → Prop
  | .enterFrame _ _ | .popFrame _ _ => True
  | _ => False

/-- What an operation brings to connections: frames only if it is about one, and packets only if it is one that comes
in. -/
def Op.Brings (op : Op) (input : Serve.Input) : Prop :=
  input.Calm ∧ (op.Framed ∨ input.frame? = none) ∨ ∃ id packet, op = .receive id packet ∧ input = .packet packet

/-- What a server does in one step: a connection takes a turn of some kind, or things change that are open to
none. -/
inductive Step (P : Serve.Input → Prop) (v : Server) : Server → Prop
  | rest {w : Server} : w.connections = v.connections → w.nextConnection = v.nextConnection →
      v.site.Rests w.site → Step P v w
  | turn (id : ConnectionId) (input : Serve.Input) : P input →
      Step P v (v.onConnection id fun s => Serve.step s input)

def join (v : Server) (shared broken : Bool) : Server :=
  let conn : Connection := { id := v.nextConnection, line := if broken then .broken else .up }
  { v with connections := v.connections ++ [conn], nextConnection := v.nextConnection + 1 }.onConnection
    v.nextConnection fun s => if shared then Serve.start s v.tabs else s.setConn fun c => { c with stage := .ended }

/-- How an operation begins; the calls it tells of are gone from the log. -/
inductive Onset (v : Server) : List LogEntry → Server → Prop
  | change {w : Server} : w.connections = v.connections → w.nextConnection = v.nextConnection →
      v.site.Stays w.site → Onset v [] w
  | join (shared broken : Bool) : Onset v [] (v.join shared broken)
  | report : Onset v v.site.log v.reported

theorem Onset.idle (v : Server) : v.Onset [] v := .change rfl rfl (.refl _)

variable {P : Serve.Input → Prop}

namespace Step

theorem mono {Q : Serve.Input → Prop} (imp : ∀ {input}, P input → Q input) (step : v.Step P w) : v.Step Q w := by
  cases step with
  | rest connections next rests => exact .rest connections next rests
  | turn id input allowed => exact .turn id input (imp allowed)

theorem setSite {f : Site → Site} (rests : v.site.Rests (f v.site)) : v.Step P (v.setSite f) := .rest rfl rfl rests

theorem broadcast (v : Server) (event : Event) : v.Step P (v.broadcast event) := by
  refine setSite ?_
  generalize v.connections.filter Connection.isOpen = listening
  generalize v.site = site
  induction listening generalizing site with
  | nil => exact .refl site
  | cons c rest ih => exact (Site.Rests.post site _ _).trans (ih _)

theorem setEngine (v : Server) (host : String) {f : Engine → Engine} (stack : ∀ e, (f e).stack = e.stack) :
    v.Step P (v.setSite (·.setEngine host f)) :=
  .rest rfl rfl (Site.Quiet.setEngine _ _ (stack _)).toRests

theorem onPage (v : Server) (tab : TabId) (f : Page → Page) : v.Step P (v.onPage tab f) := by
  unfold Server.onPage
  split
  · exact setSite (.setPage _ _ _)
  · exact .rest rfl rfl (.refl _)

theorem remember (v : Server) (tab : TabId) (message : CachedMessage) : v.Step P (v.remember tab message) := by
  unfold Server.remember
  split
  · exact onPage v tab _
  · exact .rest rfl rfl (.refl _)

end Step

section Plain

variable (plain : ∀ {input : Serve.Input}, input.Calm → input.frame? = none → P input)

include plain

theorem settle_steps (v : Server) : ReflTransGen (Step P) v v.settle := by
  have emptied : v.Step P { v with site := { v.site with mail := [] } } :=
    .rest rfl rfl (.elsewhere rfl rfl rfl rfl rfl)
  refine .head emptied ?_
  unfold settle
  generalize { v with site := { v.site with mail := [] } } = u
  induction v.site.mail generalizing u with
  | nil => exact .refl
  | cons letter rest ih => exact .head (.turn letter.1 (.event letter.2) (plain trivial rfl)) (ih _)

theorem Step.settled (step : v.Step P w) : ReflTransGen (Step P) v w.settle := .head step (settle_steps plain w)

theorem broadcast_steps (v : Server) (event : Event) : ReflTransGen (Step P) v (v.broadcast event).settle :=
  (Step.broadcast v event).settled plain

theorem hangUp_steps (v : Server) (id : ConnectionId) : ReflTransGen (Step P) v (v.hangUp id) :=
  (Step.turn id .hungUp (plain trivial rfl)).settled plain

theorem shutdown_steps (v : Server) : ReflTransGen (Step P) v v.shutdown := by
  have all (connections : List Connection) (u : Server) :
      ReflTransGen (Step P) u (connections.foldl (fun v c => v.hangUp c.id) u) := by
    induction connections generalizing u with
    | nil => exact .refl
    | cons c rest ih => exact (hangUp_steps plain u c.id).trans (ih _)
  exact (all v.connections v).tail (.rest rfl rfl (.refl _))

end Plain

theorem runHooks_steps {f : String → Act Unit} (input : String → Serve.Input)
    (turn : ∀ actor s, ((f actor).run s : Id _).2 = Serve.step s (input actor)) (frame : ∀ actor, P (input actor))
    (hooks : List FrameHook) (v : Server) : ReflTransGen (Step P) v (hooks.foldl (runHook f) v) := by
  induction hooks generalizing v with
  | nil => exact .refl
  | cons hook rest ih =>
    have first : v.Step P (runHook f v hook) := by
      unfold runHook
      rw [funext (turn hook.actor)]
      exact .turn _ _ (frame _)
    exact .head first (ih _)

theorem newGlobal_steps (v : Server) (host : String) (global : GlobalId) (parent : Option GlobalId) :
    ReflTransGen (Step P) v (v.newGlobal host global parent).1 := by
  unfold newGlobal
  generalize v.site.debuggers.filterMap _ = asked
  induction asked generalizing v with
  | nil => exact .refl
  | cons answer rest ih =>
    refine .head ?_ (ih _)
    dsimp only
    split
    · exact Step.setSite ⟨.setDebugger _ _ fun _ => ⟨rfl, rfl⟩, fun _ _ => rfl, fun _ => rfl⟩
    · exact .rest rfl rfl (.refl _)

theorem stays_edits (s : Site) (host : String) (edits : List Dom.Edit) : s.Stays (s.edits host edits) :=
  Site.edits_rel .refl .trans
    (fun s e => .setHost s host (f := fun h => { h with dom := ((s.dom host).edit e).1 }) rfl)
    (fun s _ _ _ => (Site.Rests.post s _ _).toStays) s edits

def Op.Plain : Op → Prop
  | .connect _ _ | .edit _ _ | .enterFrame _ _ | .popFrame _ _ | .report => False
  | _ => True

theorem apply_steps_plain (v : Server) {op : Op} (simple : op.Plain) :
    ReflTransGen (Step op.Brings) v (v.apply op) := by
  have plain {input : Serve.Input} (calm : input.Calm) (unframed : input.frame? = none) : op.Brings input :=
    .inl ⟨calm, .inr unframed⟩
  cases op with
  | connect shared broken => exact simple.elim
  | edit host edits => exact simple.elim
  | enterFrame host frame => exact simple.elim
  | popFrame host completion => exact simple.elim
  | report => exact simple.elim
  | receive id packet =>
    have brings : Op.Brings (.receive id packet) (.packet packet) := .inr ⟨id, packet, rfl, rfl⟩
    exact (Step.turn id _ brings).settled plain
  | hangUp id => exact hangUp_steps plain v id
  | breakLine id => exact .single (.turn id .lineBroken (plain trivial rfl))
  | shutdown => exact shutdown_steps plain v
  | newPage tab host info =>
    let page : Page := { tab := tab, host := host, info := info }
    let site : Site :=
      { v.site with nextPage := v.site.nextPage + 1, pages := v.site.pages.insert v.site.nextPage page }
    let u : Server :=
      { v with tabs := v.tabs.insertBy (fun a b => decide (a < b)) tab v.site.nextPage, site := site }
    have announced : v.Step (Op.newPage tab host info).Brings u := .rest rfl rfl (.elsewhere rfl rfl rfl rfl rfl)
    exact .head announced (broadcast_steps plain u _)
  | titleChanged tab title => exact .single (Step.onPage v tab _)
  | consoleMessage tab message => exact .head (Step.remember v tab _) (broadcast_steps plain _ _)
  | pageError tab error => exact .head (Step.remember v tab _) (broadcast_steps plain _ _)
  | fileActivity tab uri => exact broadcast_steps plain v _
  | networkEvent tab request event => exact broadcast_steps plain v _
  | frameLoad tab frame => exact broadcast_steps plain v _
  | documentUnload tab document => exact broadcast_steps plain v _
  | tabClosed tab =>
    have closed : v.Step (Op.tabClosed tab).Brings { v with tabs := v.tabs.erase tab } := .rest rfl rfl (.refl _)
    exact .head closed (broadcast_steps plain _ _)
  | addObjects host objects => exact .single (Step.setEngine v host fun _ => rfl)
  | pause host frames => exact .single (Step.setEngine v host fun _ => rfl)
  | newGlobal host global parent => exact newGlobal_steps v host global parent

theorem apply_steps (v : Server) (op : Op) : ∃ u, v.Onset (op.told v) u ∧ ReflTransGen (Step op.Brings) u (v.apply op) := by
  have plain {input : Serve.Input} (calm : input.Calm) (unframed : input.frame? = none) : op.Brings input :=
    .inl ⟨calm, .inr unframed⟩
  have moved (host : String) (f : Engine → Engine) : v.Onset [] (v.setSite (·.setEngine host f)) :=
    .change rfl rfl (.setHost v.site host (f := fun h => { h with engine := f h.engine }) rfl)
  cases op with
  | connect shared broken => exact ⟨_, .join shared broken, settle_steps plain _⟩
  | edit host edits =>
    refine ⟨v.setSite (·.edits host edits), ?_, settle_steps plain _⟩
    exact .change rfl rfl (stays_edits v.site host edits)
  | enterFrame host frame =>
    have entered := runHooks_steps (P := Op.Brings (.enterFrame host frame)) (fun actor => .entered actor frame)
      (fun _ _ => rfl) (fun _ => .inl ⟨trivial, .inl trivial⟩) (watchers v.site host frame.global)
    exact ⟨_, moved host _, entered _⟩
  | popFrame host completion =>
    change ∃ u, v.Onset [] u ∧ ReflTransGen (Step _) u ((v.popFrame? host completion).getD v)
    unfold popFrame?
    split
    · exact ⟨v, .idle v, .refl⟩
    · rename_i hooks rest _
      have left := runHooks_steps (P := Op.Brings (.popFrame host completion)) (fun actor => .left actor completion)
        (fun _ _ => rfl) (fun _ => .inl ⟨trivial, .inl trivial⟩) hooks
      exact ⟨_, moved host fun e => { e with stack := rest }, left _⟩
  | report => exact ⟨_, .report, .refl⟩
  | _ => exact ⟨v, .idle v, apply_steps_plain v trivial⟩

end Server

end RemoteInspector
