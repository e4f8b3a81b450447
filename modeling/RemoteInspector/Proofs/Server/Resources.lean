import Mathlib.Data.List.Induction
import RemoteInspector.Proofs.Serve.Effects
import RemoteInspector.Proofs.Serve.Ending
import RemoteInspector.Proofs.Serve.Moving
import RemoteInspector.Proofs.Server.Runs
/-!
What the connections of a server hold on its hosts, through every run: none meddles with another, and one that has
ended holds nothing.
-/
namespace RemoteInspector

open Registry (Named)
open Relation (ReflTransGen)

namespace Server

variable {v w : Server} {past : List LogEntry} {P : Serve.Input → Prop}

def Numbered (v : Server) : Prop := ∀ id c, v.connection? id = some c → id < v.nextConnection

theorem Numbered.next (numbered : v.Numbered) : v.connection? v.nextConnection = none := by
  cases found : v.connection? v.nextConnection with
  | none => rfl
  | some c => exact absurd (numbered _ c found) (Nat.lt_irrefl _)

/-- No connection has used up its names. -/
def Few (v : Server) : Prop := ∀ id c, v.connection? id = some c → c.registry.next ≤ UInt32.size

theorem Few.of_all (all : ∀ c ∈ v.connections, c.registry.next ≤ UInt32.size) : v.Few :=
  fun _ c found => all c (List.mem_of_find?_eq_some found)

/-- Every connection holds what its actors hold, and whoever is not there holds nothing. -/
structure Kept (past : List LogEntry) (v : Server) : Prop where
  numbered : v.Numbered
  tidy : v.site.Tidy past
  holding : ∀ {id c}, v.connection? id = some c → Scene.Holding past ⟨v.site, c⟩
  strangers : ∀ id line, v.connection? id = none → Scene.Holding past ⟨v.site, { id, line }⟩
  sound : ∀ {id c}, v.connection? id = some c → c.Sound
  emptied : ∀ {id c}, v.connection? id = some c → c.Emptied

/-! ### Connections stay and their names go up -/

structure Advances (v w : Server) : Prop where
  numbered : v.Numbered → w.Numbered
  next : v.Numbered → ∀ {id c}, v.connection? id = some c →
    ∃ c', w.connection? id = some c' ∧ c.registry.next ≤ c'.registry.next

namespace Advances

theorem refl (v : Server) : v.Advances v := ⟨id, fun _ _ c found => ⟨c, found, Nat.le_refl _⟩⟩

theorem trans {u : Server} (first : u.Advances v) (next : v.Advances w) : u.Advances w where
  numbered given := next.numbered (first.numbered given)
  next given {id c} found := by
    obtain ⟨c', found', le⟩ := first.next given found
    obtain ⟨c'', found'', le'⟩ := next.next (first.numbered given) found'
    exact ⟨c'', found'', Nat.le_trans le le'⟩

theorem few (advances : v.Advances w) (numbered : v.Numbered) (few : w.Few) : v.Few := by
  intro id c found
  obtain ⟨c', found', le⟩ := advances.next numbered found
  exact Nat.le_trans le (few id c' found')

theorem same (connections : w.connections = v.connections) (next : w.nextConnection = v.nextConnection) :
    v.Advances w := by
  have lookup (id : ConnectionId) : w.connection? id = v.connection? id := by rw [connection?, connections, connection?]
  refine ⟨fun given id c found => ?_, fun _ id c found => ⟨c, ?_, Nat.le_refl _⟩⟩
  · rw [lookup] at found
    rw [next]
    exact given id c found
  · rw [lookup]
    exact found

end Advances

theorem Step.advances (step : v.Step P w) : v.Advances w := by
  cases step with
  | rest connections next rests => exact .same connections next
  | turn id input _ =>
    cases found : v.connection? id with
    | none =>
      rw [onConnection_none found]
      exact .refl v
    | some c =>
      have later := Serve.take_later c ⟨v.site, input⟩
      have lookup := connection?_onConnection found (f := fun s => Serve.step s input) rfl later.id
      refine ⟨fun given id' c' found' => ?_, fun _ id' c' found' => ?_⟩
      · rw [nextConnection_onConnection]
        rw [lookup] at found'
        split at found'
        · rename_i here
          rw [here]
          exact given id c found
        · exact given id' c' found'
      · rw [lookup]
        split
        · rename_i here
          rw [here, found] at found'
          cases found'
          exact ⟨_, rfl, later.later⟩
        · exact ⟨c', found', Nat.le_refl _⟩

theorem Steps.advances (steps : ReflTransGen (Step P) v w) : v.Advances w := by
  induction steps with
  | refl => exact .refl v
  | tail _ step ih => exact ih.trans step.advances

theorem connection?_join (numbered : v.Numbered) (shared broken : Bool) :
    ∃ t : Scene, t = (if shared then
        Serve.start ⟨v.site, { id := v.nextConnection, line := if broken then .broken else .up }⟩ v.tabs
      else ⟨v.site, { id := v.nextConnection, line := if broken then .broken else .up, stage := .ended }⟩) ∧
      (v.join shared broken).site = t.site ∧ (v.join shared broken).nextConnection = v.nextConnection + 1 ∧
      ∀ id, (v.join shared broken).connection? id = if id = v.nextConnection then some t.conn else v.connection? id := by
  let conn : Connection := { id := v.nextConnection, line := if broken then .broken else .up }
  let u : Server := { v with connections := v.connections ++ [conn], nextConnection := v.nextConnection + 1 }
  let f (s : Scene) : Scene :=
    if shared then Serve.start s v.tabs else s.setConn fun c => { c with stage := .ended }
  have fresh := numbered.next
  have lookup (id : ConnectionId) :
      u.connection? id = (v.connection? id).or (if v.nextConnection = id then some conn else none) := by
    unfold connection?
    rw [List.find?_append]
    simp [conn]
  have found : u.connection? v.nextConnection = some conn := by
    rw [lookup, fresh, Option.none_or, if_pos rfl]
  have same : (f ⟨u.site, conn⟩).conn.id = conn.id := by
    dsimp only [f]
    split
    · exact (Scene.Moves.later (Serve.start_moves _ _ _ _)).1
    · rfl
  refine ⟨f ⟨u.site, conn⟩, ?_, ?_, ?_, fun id => ?_⟩
  · cases shared <;> rfl
  · exact (onConnection_eq found (f := f) rfl same).2
  · exact nextConnection_onConnection u _ f
  · refine (connection?_onConnection found (f := f) rfl same id).trans ?_
    split
    · rfl
    · rename_i other
      rw [lookup, if_neg (Ne.symm other), Option.or_none]

theorem connection?_reported (v : Server) (id : ConnectionId) : v.reported.connection? id =
    (v.connection? id).map fun c => { c with sent := [], stage := if c.isOpen then .opened else .told } := by
  unfold connection? reported
  rw [List.find?_map]
  rfl

theorem Onset.advances {told : List LogEntry} (onset : v.Onset told w) : v.Advances w := by
  cases onset with
  | change connections next stays => exact .same connections next
  | join shared broken =>
    constructor
    · intro given id c found
      obtain ⟨t, _, _, next, lookup⟩ := connection?_join given shared broken
      rw [next]
      rw [lookup] at found
      split at found
      · rename_i new
        rw [new]
        exact Nat.lt_succ_self _
      · exact Nat.lt_succ_of_lt (given id c found)
    · intro given id c found
      obtain ⟨t, _, _, _, lookup⟩ := connection?_join given shared broken
      refine ⟨c, ?_, Nat.le_refl _⟩
      rw [lookup, if_neg (Nat.ne_of_lt (given id c found))]
      exact found
  | report =>
    refine ⟨fun given id c found => ?_, fun _ id c found => ?_⟩
    · rw [connection?_reported] at found
      obtain ⟨c', found', _⟩ := Option.map_eq_some_iff.mp found
      exact given id c' found'
    · rw [connection?_reported, found]
      exact ⟨_, rfl, Nat.le_refl _⟩

theorem apply_advances (v : Server) (op : Op) : v.Advances (v.apply op) := by
  obtain ⟨u, onset, steps⟩ := v.apply_steps op
  exact onset.advances.trans (Steps.advances steps)

theorem run_advances (v : Server) (ops : List Op) : v.Advances (run v ops) := by
  induction ops generalizing v with
  | nil => exact .refl v
  | cons op rest ih => exact (v.apply_advances op).trans (ih _)

/-! ### Holdings through a run -/

namespace Kept

/-- One connection moves; it may be new. -/
theorem acted {s t : Scene} (kept : v.Kept past) (here : s.site = v.site) (holding : s.Holding past)
    (moves : ReflTransGen Scene.Move s t) (few : t.Few) (sound : t.conn.Sound)
    (emptied : t.conn.Emptied) (site : w.site = t.site) (next : v.nextConnection ≤ w.nextConnection)
    (below : s.conn.id < w.nextConnection)
    (lookup : ∀ id, w.connection? id = if id = s.conn.id then some t.conn else v.connection? id) : w.Kept past := by
  have upheld := Scene.Moves.upheld moves few (here.symm ▸ kept.tidy) holding
  have whose {P : ConnectionId → Connection → Prop} (own : P s.conn.id t.conn)
      (others : ∀ {id c}, id ≠ s.conn.id → v.connection? id = some c → P id c) {id : ConnectionId} {c : Connection}
      (found : w.connection? id = some c) : P id c := by
    rw [lookup] at found
    split at found
    · rename_i self
      cases found
      exact self ▸ own
    · rename_i other
      exact others other found
  refine ⟨?_, site.symm ▸ upheld.tidy, ?_, fun id line absent => ?_, ?_, ?_⟩
  · intro id c
    exact whose below fun _ found => Nat.lt_of_lt_of_le (kept.numbered _ _ found) next
  · rw [site]
    refine whose upheld.holding fun {id c} other found => upheld.others c ?_ ?_
    · rw [id_of_connection? found]
      exact other
    · rw [here]
      exact kept.holding found
  · rw [site]
    rw [lookup] at absent
    split at absent
    · cases absent
    · rename_i other
      refine upheld.others { id, line } other ?_
      rw [here]
      exact kept.strangers id line absent
  · exact whose sound fun _ => kept.sound
  · exact whose emptied fun _ => kept.emptied

theorem change (kept : v.Kept past) (connections : w.connections = v.connections)
    (next : w.nextConnection = v.nextConnection) (stays : v.site.Stays w.site) : w.Kept past := by
  have lookup (id : ConnectionId) : w.connection? id = v.connection? id := by rw [connection?, connections, connection?]
  refine ⟨(Advances.same connections next).numbered kept.numbered, kept.tidy.stays stays, fun {id c} found => ?_,
    fun id line absent => ?_, fun {id c} found => ?_, fun {id c} found => ?_⟩
  · rw [lookup] at found
    exact (kept.holding found).spared (stays.spares _ past)
  · rw [lookup] at absent
    exact (kept.strangers id line absent).spared (stays.spares _ past)
  · rw [lookup] at found
    exact kept.sound found
  · rw [lookup] at found
    exact kept.emptied found

theorem turn (kept : v.Kept past) {id : ConnectionId} {c : Connection} (found : v.connection? id = some c)
    (input : Serve.Input) (few : (v.onConnection id fun s => Serve.step s input).Few) :
    (v.onConnection id fun s => Serve.step s input).Kept past := by
  have later := Serve.take_later c ⟨v.site, input⟩
  have named := id_of_connection? found
  have lookup := connection?_onConnection found (f := fun s => Serve.step s input) rfl later.id
  have few' : (Serve.step ⟨v.site, c⟩ input).Few :=
    few id _ ((lookup id).trans (if_pos rfl))
  have holding := kept.holding found
  refine kept.acted rfl holding (Scene.lasting.step ⟨v.site, c⟩ input holding.given).1 few'
    (later.sound few' (kept.sound found)).1 (Serve.step_emptied input few' (kept.sound found) (kept.emptied found)) ?_
    (Nat.le_of_eq (nextConnection_onConnection ..).symm) ?_ fun id' => ?_
  · exact (onConnection_eq found (f := fun s => Serve.step s input) rfl later.id).2
  · rw [nextConnection_onConnection, named]
    exact kept.numbered id c found
  · rw [lookup, named]

end Kept

theorem Step.kept (step : v.Step P w) (few : w.Few) (kept : v.Kept past) : w.Kept past := by
  cases step with
  | rest connections next rests => exact kept.change connections next rests.toStays
  | turn id input _ =>
    cases found : v.connection? id with
    | none =>
      rw [onConnection_none found]
      exact kept
    | some c => exact kept.turn found input few

theorem Steps.kept (steps : ReflTransGen (Step P) v w) (few : w.Few) (kept : v.Kept past) : w.Kept past := by
  induction steps with
  | refl => exact kept
  | tail steps step ih =>
    have numbered := (Steps.advances steps).numbered kept.numbered
    exact step.kept few (ih (step.advances.few numbered few))

theorem holding_rooted {site : Site} {id : ConnectionId} {line : Line}
    (holding : Scene.Holding past ⟨site, { id, line }⟩) : (Serve.rooted site id line).Holding past := by
  have bare (x : String) : Scene.tie? ⟨site, { id, line }⟩ x = none := rfl
  have rooted := Serve.tie?_rooted site id line
  have spares := (Site.Stays.refl site).spares id past
  refine ⟨holding.toWatching.congr rfl (fun x h k o => ?_) spares.toKeepsObservers,
    holding.toDebugging.congr rfl (fun x d r => ?_) spares.toKeepsDebuggers, Serve.rooted_given site id line, ?_,
    holding.tracings⟩
  · exact Scene.watches_iff rfl fun actor => by rw [rooted, bare]
  · exact Scene.debugs_of_tracings (by rw [rooted, bare]) rfl
  · intro name d held
    exact nomatch held

theorem Kept.join (kept : v.Kept past) (shared broken : Bool) (few : (v.join shared broken).Few) :
    (v.join shared broken).Kept past := by
  obtain ⟨t, started, site, next, lookup⟩ := connection?_join kept.numbered shared broken
  generalize (if broken then Line.broken else .up) = line at started
  have few' : t.Few := few _ _ ((lookup _).trans (if_pos rfl))
  have bare := kept.strangers v.nextConnection line kept.numbered.next
  have below : v.nextConnection < (v.join shared broken).nextConnection := by
    rw [next]
    exact Nat.lt_succ_self _
  cases shared with
  | true =>
    rw [if_pos rfl] at started
    have begun : Serve.Begun t.conn := by
      rw [started]
      exact ⟨v.site, v.nextConnection, line, v.tabs, rfl⟩
    have moves : ReflTransGen Scene.Move (Serve.rooted v.site v.nextConnection line) t := by
      rw [started]
      exact Serve.start_moves _ _ _ _
    exact kept.acted rfl (holding_rooted bare) moves few' (Serve.sound_of_begun begun few')
      (Serve.emptied_of_begun begun few') site (Nat.le_of_lt below) below lookup
  | false =>
    rw [if_neg Bool.false_ne_true] at started
    have still : Scene.Holding past t := by
      rw [started]
      exact ⟨⟨bare.opened, bare.held, bare.alone, bare.closed⟩,
        ⟨bare.live, bare.made, bare.sole, bare.dropped, bare.hooked, bare.paced⟩, bare.given, bare.traced, bare.tracings⟩
    have sound : t.conn.Sound := by
      rw [started]
      exact ⟨.empty _, nofun⟩
    have emptied : t.conn.Emptied := by
      rw [started]
      exact fun _ => rfl
    have here : t.site = v.site := by
      rw [started]
    have id : t.conn.id = v.nextConnection := by
      rw [started]
    exact kept.acted here still .refl few' sound emptied site (Nat.le_of_lt below) (id ▸ below) (id ▸ lookup)

theorem Kept.report (kept : v.Kept past) : v.reported.Kept (past ++ v.site.log) := by
  have calls : past ++ v.site.log ++ v.reported.site.log = past ++ v.site.log := List.append_nil _
  have still {c : Connection} (holding : Scene.Holding past ⟨v.site, c⟩) (sent : List Json) (stage : Stage) :
      Scene.Holding (past ++ v.site.log) ⟨v.reported.site, { c with sent := sent, stage := stage }⟩ := by
    refine ⟨⟨holding.opened, holding.held, holding.alone, ?_⟩, ⟨holding.live, ?_, holding.sole, ?_, holding.hooked,
      holding.paced⟩, holding.given, holding.traced, holding.tracings⟩ <;> rw [calls]
    · exact holding.closed
    · exact holding.made
    · exact holding.dropped
  have whose {id : ConnectionId} {c : Connection} (found : v.reported.connection? id = some c) :
      ∃ c', v.connection? id = some c' ∧
        c = { c' with sent := [], stage := if c'.isOpen then .opened else .told } := by
    rw [connection?_reported] at found
    obtain ⟨c', old, same⟩ := Option.map_eq_some_iff.mp found
    exact ⟨c', old, same.symm⟩
  refine ⟨Onset.report.advances.numbered kept.numbered, kept.tidy.told, fun found => ?_, fun id line absent => ?_,
    fun found => ?_, fun found => ?_⟩
  · obtain ⟨c, old, rfl⟩ := whose found
    exact still (kept.holding old) _ _
  · rw [connection?_reported, Option.map_eq_none_iff] at absent
    exact still (kept.strangers id line absent) [] .opened
  · obtain ⟨c, old, rfl⟩ := whose found
    refine ⟨(kept.sound old).valid, fun isOpen => (kept.sound old).rooted ?_⟩
    simpa [Connection.isOpen] using isOpen
  · obtain ⟨c, old, rfl⟩ := whose found
    have emptied := kept.emptied old
    intro closed
    refine emptied fun isOpen => closed ?_
    simpa [Connection.isOpen] using isOpen

theorem Onset.kept {told : List LogEntry} (onset : v.Onset told w) (few : w.Few) (kept : v.Kept past) :
    w.Kept (past ++ told) := by
  cases onset with
  | change connections next stays =>
    rw [List.append_nil]
    exact kept.change connections next stays
  | join shared broken =>
    rw [List.append_nil]
    exact kept.join shared broken few
  | report => exact kept.report

theorem apply_kept (op : Op) (few : (v.apply op).Few) (kept : v.Kept past) : (v.apply op).Kept (past ++ op.told v) := by
  obtain ⟨u, onset, steps⟩ := v.apply_steps op
  have few' : u.Few := (Steps.advances steps).few (onset.advances.numbered kept.numbered) few
  exact Steps.kept steps few (onset.kept few' kept)

theorem run_kept (ops : List Op) (few : (run v ops).Few) (kept : v.Kept past) :
    (run v ops).Kept (past ++ told v ops) := by
  induction ops generalizing v past with
  | nil =>
    rw [told, List.append_nil]
    exact kept
  | cons op rest ih =>
    have few' : (v.apply op).Few :=
      (run_advances _ rest).few ((v.apply_advances op).numbered kept.numbered) few
    rw [told, ← List.append_assoc]
    exact ih few (apply_kept op few' kept)

/-! ### Documents -/

/-- Node actors that have come since the earlier server watch exactly if they stand for documents. -/
structure Referred (v w : Server) : Prop where
  documents : ∀ host node, (w.site.dom host).isDocument node = (v.site.dom host).isDocument node
  nodes : ∀ {id c' name actor}, w.connection? id = some c' → c'.registry.find? name = some (.node actor) →
    (∃ c, v.connection? id = some c ∧ c.registry.find? name = some (.node actor)) ∨
      (∀ c, v.connection? id = some c → Named id c.registry.next c'.registry.next name) ∧
        actor.observer.isSome = (v.site.dom actor.host).isDocument actor.node

theorem Referred.refl (v : Server) : v.Referred v :=
  ⟨fun _ _ => rfl, fun {_ c' _ _} found node => .inl ⟨c', found, node⟩⟩

theorem Referred.trans {u : Server} (first : u.Referred v) (next : v.Referred w) (numbered : u.Numbered)
    (early : u.Advances v) (late : v.Advances w) : u.Referred w where
  documents host node := (next.documents host node).trans (first.documents host node)
  nodes {id c'' name actor} found node := by
    rcases next.nodes found node with ⟨c', found', node'⟩ | ⟨fresh, watches⟩
    · obtain ⟨same, there, le⟩ := late.next (early.numbered numbered) found'
      rw [found] at there
      cases there
      refine (first.nodes found' node').imp_right fun ⟨fresh, watches⟩ => ⟨fun c old => ?_, watches⟩
      exact (fresh c old).widen (Nat.le_refl _) le
    · rw [first.documents] at watches
      refine .inr ⟨fun c old => ?_, watches⟩
      obtain ⟨c', found', le⟩ := early.next numbered old
      exact (fresh c' found').widen le (Nat.le_refl _)

theorem Step.referred (step : v.Step P w) (few : w.Few) (kept : v.Kept past) : v.Referred w := by
  cases step with
  | rest connections next rests =>
    refine ⟨rests.documents, fun {id c' name actor} found node => .inl ⟨c', ?_, node⟩⟩
    rwa [connection?, connections] at found
  | turn id input _ =>
    cases found : v.connection? id with
    | none =>
      rw [onConnection_none found]
      exact .refl v
    | some c =>
      have later := Serve.take_later c ⟨v.site, input⟩
      have lookup := connection?_onConnection found (f := fun s => Serve.step s input) rfl later.id
      have site := (onConnection_eq found (f := fun s => Serve.step s input) rfl later.id).2
      have few' : (Serve.step ⟨v.site, c⟩ input).Few :=
        few id _ ((lookup id).trans (if_pos rfl))
      have holding := kept.holding found
      have moves := (Scene.lasting.step ⟨v.site, c⟩ input holding.given).1
      have referred := Scene.Moves.referred moves few' kept.tidy holding
      refine ⟨fun host node => ?_, fun {id' c' name actor} found' node => ?_⟩
      · rw [site]
        exact referred.documents host node
      · rw [lookup] at found'
        split at found'
        · rename_i here
          subst here
          cases found'
          have tied := referred.nodes name actor (Scene.tie?_eq_node.mpr node)
          refine tied.imp (fun old => ⟨c, found, Scene.tie?_eq_node (s := ⟨v.site, c⟩).mp old⟩) fun new => ?_
          obtain ⟨named, watches⟩ := new
          refine ⟨fun c' old => ?_, watches⟩
          rw [found] at old
          cases old
          rw [← id_of_connection? found]
          exact named
        · exact .inl ⟨c', found', node⟩

theorem Steps.referred (steps : ReflTransGen (Step P) v w) (few : w.Few) (kept : v.Kept past) : v.Referred w := by
  induction steps with
  | refl => exact .refl v
  | tail steps step ih =>
    have early := Steps.advances steps
    have few' := step.advances.few (early.numbered kept.numbered) few
    exact (ih few').trans (step.referred few (Steps.kept steps few' kept)) kept.numbered early step.advances

/-- The actors of nodes that are there at the onset of an operation. -/
theorem Onset.nodes {told : List LogEntry} (onset : v.Onset told w) (few : w.Few) (kept : v.Kept past)
    {id : ConnectionId} {c' : Connection} {name : String} {actor : NodeActor} (found : w.connection? id = some c')
    (node : c'.registry.find? name = some (.node actor)) :
    (∃ c, v.connection? id = some c ∧ c.registry.find? name = some (.node actor)) ∨
      v.connection? id = none ∧ actor.observer.isSome = (w.site.dom actor.host).isDocument actor.node := by
  cases onset with
  | change connections next stays =>
    rw [connection?, connections] at found
    exact .inl ⟨c', found, node⟩
  | join shared broken =>
    obtain ⟨t, started, site, next, lookup⟩ := connection?_join kept.numbered shared broken
    generalize (if broken then Line.broken else .up) = line at started
    have few' : t.Few := few _ _ ((lookup _).trans (if_pos rfl))
    rw [lookup] at found
    split at found
    · rename_i new
      cases found
      have fresh : v.connection? id = none := by
        rw [new]
        exact kept.numbered.next
      refine .inr ⟨fresh, ?_⟩
      cases shared with
      | true =>
        rw [if_pos rfl] at started
        have moves := Serve.start_moves v.site v.nextConnection line v.tabs
        rw [← started] at moves
        have bare := kept.strangers v.nextConnection line kept.numbered.next
        have referred := Scene.Moves.referred moves few' kept.tidy (holding_rooted bare)
        rcases referred.nodes name actor (Scene.tie?_eq_node.mpr node) with old | ⟨_, watches⟩
        · rw [Serve.tie?_rooted] at old
          cases old
        · rw [site, referred.documents]
          exact watches
      | false =>
        rw [if_neg Bool.false_ne_true] at started
        rw [started] at node
        cases node
    · exact .inl ⟨c', found, node⟩
  | report =>
    rw [connection?_reported] at found
    obtain ⟨c, old, rfl⟩ := Option.map_eq_some_iff.mp found
    exact .inl ⟨c, old, node⟩

theorem apply_nodes (op : Op) (few : (v.apply op).Few) (kept : v.Kept past) {id : ConnectionId} {c' : Connection}
    {name : String} {actor : NodeActor} (found : (v.apply op).connection? id = some c')
    (node : c'.registry.find? name = some (.node actor)) :
    (∃ c, v.connection? id = some c ∧ c.registry.find? name = some (.node actor)) ∨
      (∀ c, v.connection? id = some c → c.registry.find? name = none) ∧
        actor.observer.isSome = ((v.apply op).site.dom actor.host).isDocument actor.node := by
  obtain ⟨u, onset, steps⟩ := v.apply_steps op
  have advances := Steps.advances steps
  have few' : u.Few := advances.few (onset.advances.numbered kept.numbered) few
  have referred := Steps.referred steps few (onset.kept few' kept)
  rw [referred.documents]
  rcases referred.nodes found node with ⟨c, there, node'⟩ | ⟨fresh, watches⟩
  · refine (onset.nodes few' kept there node').imp_right fun ⟨absent, watches⟩ => ⟨fun c old => ?_, watches⟩
    rw [absent] at old
    cases old
  · refine .inr ⟨fun c old => ?_, watches⟩
    obtain ⟨c'', there, le⟩ := onset.advances.next kept.numbered old
    have named : Named c.id c.registry.next c'.registry.next name := by
      rw [id_of_connection? old]
      exact (fresh c'' there).widen le (Nat.le_refl _)
    exact (kept.holding old).given.find?_new named (few id c' found)

/-! ### Runs from the beginning -/

/-- A server that nobody has connected to, with nothing open on its hosts. -/
structure Fresh (v : Server) : Prop where
  connections : v.connections = []
  observers : ∀ host, (v.site.host host).observers = []
  debuggers : v.site.debuggers = []
  log : v.site.log = []

namespace Fresh

theorem connection? (fresh : v.Fresh) (id : ConnectionId) : v.connection? id = none := by
  rw [Server.connection?, fresh.connections]
  rfl

theorem hooks (fresh : v.Fresh) (d : DebuggerId) : v.site.hooks.get? d = none := by
  rw [Site.get?_hooks, fresh.debuggers]
  rfl

theorem kept (fresh : v.Fresh) : v.Kept [] := by
  have nobody {id : ConnectionId} {c : Connection} {P : Prop} (found : v.connection? id = some c) : P := by
    rw [fresh.connection?] at found
    cases found
  have unwatched (host : String) (k : ObserverId) : (v.site.host host).observers.get? k = none := by
    rw [fresh.observers]
    rfl
  have calls : [] ++ v.site.log = [] := fresh.log
  refine ⟨fun id c => nobody, ⟨⟨fun host => ?_, fun host k o found => ?_, fun host host' k o o' found => ?_, ?_,
    fun k => ?_⟩, ⟨?_, fun d hook found => ?_, ?_, ?_, ?_⟩⟩, nobody, fun id line _ => ?_, nobody, nobody⟩
  · rw [fresh.observers]
    exact .nil
  · rw [unwatched] at found
    cases found
  · rw [unwatched] at found
    cases found
  · rw [calls]
    exact fun _ none => nomatch none
  · rw [calls]
    exact Nat.zero_le _
  · rw [Site.keys_hooks, fresh.debuggers]
    exact .nil
  · rw [fresh.hooks] at found
    cases found
  · rw [calls]
    exact fun _ none => nomatch none
  · rw [calls]
    exact fun _ none => nomatch none
  · rw [calls]
    exact fun _ none => nomatch none
  · -- Nobody has anything yet, and nothing has been called.
    have idle {x : String} {d : DebuggerId} {r : Option Bool} {P : Prop}
        (held : Scene.Debugs ⟨v.site, { id, line }⟩ x d r) : P := held.elim nofun nofun
    refine ⟨⟨nofun, fun {host k o} found => ?_, nofun, fun {k node} called => ?_⟩, ⟨idle, idle, fun held => idle held,
      fun {d} called => ?_, fun {d hook} found => ?_, idle⟩, nofun, nofun, fun _ => ⟨.nil, .nil, fun _ => rfl⟩⟩
    · rw [unwatched] at found
      cases found
    · rw [calls] at called
      cases called
    · rw [calls] at called
      cases called
    · rw [fresh.hooks] at found
      cases found

end Fresh

def node? (v : Server) (id : ConnectionId) (name : String) : Option NodeActor :=
  (v.connection? id).bind fun c => (c.registry.find? name).bind Actor.node?

theorem node?_eq_some {id : ConnectionId} {name : String} {actor : NodeActor} : v.node? id name = some actor ↔
    ∃ c, v.connection? id = some c ∧ c.registry.find? name = some (.node actor) := by
  unfold node?
  rw [Option.bind_eq_some_iff]
  refine exists_congr fun c => and_congr_right fun _ => ?_
  exact Scene.node?_eq_some (s := ⟨v.site, c⟩)

theorem node_made (fresh : v.Fresh) (ops : List Op) (few : (run v ops).Few) {id : ConnectionId} {name : String}
    {actor : NodeActor} (node : (run v ops).node? id name = some actor) :
    ∃ earlier op later, ops = earlier ++ op :: later ∧ (run v earlier).node? id name = none ∧
      (run v (earlier ++ [op])).node? id name = some actor ∧
      actor.observer.isSome = ((run v (earlier ++ [op])).site.dom actor.host).isDocument actor.node := by
  induction ops using List.reverseRecOn with
  | nil =>
    obtain ⟨c, found, _⟩ := node?_eq_some.mp node
    rw [run, List.foldl_nil, fresh.connection?] at found
    cases found
  | append_singleton ops op ih =>
    have few' : (run v ops).Few := by
      refine ((run v ops).apply_advances op).few ?_ (run_append v ops op ▸ few)
      exact (run_advances v ops).numbered fresh.kept.numbered
    have kept := run_kept ops few' fresh.kept
    obtain ⟨c', found, there⟩ := node?_eq_some.mp node
    rw [run_append] at few found
    rcases apply_nodes op few kept found there with ⟨c, old, there'⟩ | ⟨absent, watches⟩
    · obtain ⟨earlier, op', later, rfl, before, after, watches⟩ := ih few' (node?_eq_some.mpr ⟨c, old, there'⟩)
      exact ⟨earlier, op', later ++ [op], by simp, before, after, watches⟩
    · refine ⟨ops, op, [], rfl, ?_, node, ?_⟩
      · cases old : (run v ops).node? id name with
        | none => rfl
        | some actor' =>
          obtain ⟨c, there', found'⟩ := node?_eq_some.mp old
          rw [absent c there'] at found'
          cases found'
      · rw [run_append]
        exact watches

/-- As long as the names last, through every run of a server that begins with nothing open. For each of its
connections: the observers it has on hosts are those of its node actors, each held by one actor; an actor has
one exactly if its node was a document when the actor came; the debuggers that its consoles and tracers have
are there, and it made them. No observer is disconnected twice. Once the connection has ended it has no
actors, no observer and no debugger: all it ever opened has been closed, and no debugger reports to it. -/
theorem resources_held (fresh : v.Fresh) (ops : List Op) (few : (run v ops).Few) {id : ConnectionId} {c : Connection}
    (there : (run v ops).connection? id = some c) :
    let now := (run v ops).site
    let calls := history v ops
    (∀ host k o, (k, o) ∈ (now.host host).observers ∧ o.connection = id ↔
      ∃ name actor, c.registry.find? name = some (.node actor) ∧ actor.observer = some k ∧ actor.host = host ∧
        o = ⟨actor.node, id, actor.walker⟩) ∧
    (∀ host, (now.host host).observers.keys.Nodup) ∧
    (∀ name name' actor actor' k, c.registry.find? name = some (.node actor) →
      c.registry.find? name' = some (.node actor') → actor.observer = some k → actor'.observer = some k →
      name = name') ∧
    (∀ name actor, c.registry.find? name = some (.node actor) →
      ∃ earlier op later, ops = earlier ++ op :: later ∧ (run v earlier).node? id name = none ∧
        (run v (earlier ++ [op])).node? id name = some actor ∧
        actor.observer.isSome = ((run v (earlier ++ [op])).site.dom actor.host).isDocument actor.node) ∧
    (∀ name d, (∃ actor, c.registry.find? name = some (.console actor) ∧ actor.debugger = some d) ∨
        (∃ tracing, c.tracings.get? name = some tracing ∧ tracing.debugger = some d) →
      ⟨some id, .newDebugger d⟩ ∈ calls ∧ (now.debuggers.get? d).isSome) ∧
    (∀ k, calls.countP (·.call = .disconnect k) ≤ 1) ∧
    (c.isOpen = false → c.registry.entries = [] ∧
      (∀ host, ∀ p ∈ (now.host host).observers, p.2.connection ≠ id) ∧
      (∀ k node, ⟨some id, .observe k node⟩ ∈ calls → ⟨some id, .disconnect k⟩ ∈ calls) ∧
      (∀ d, ⟨some id, .newDebugger d⟩ ∈ calls → ⟨some id, .dropDebugger d⟩ ∈ calls ∧ now.debuggers.get? d = none) ∧
      ∀ p ∈ now.debuggers, ∀ hook, p.2.frameHook = some hook → hook.connection ≠ id) := by
  intro now calls
  have kept : (run v ops).Kept (told v ops) := run_kept ops few fresh.kept
  have named : c.id = id := id_of_connection? there
  subst named
  let s : Scene := ⟨now, c⟩
  have holding : s.Holding (told v ops) := kept.holding there
  have tidy := kept.tidy
  have observed {host : String} {k : ObserverId} {o : Observer} :
      (k, o) ∈ (now.host host).observers ↔ (now.host host).observers.get? k = some o :=
    (Table.get?_eq_some_iff (tidy.keys host)).symm
  have watches {name host : String} {k : ObserverId} {o : Observer} : s.Watches name host k o ↔
      ∃ actor, c.registry.find? name = some (.node actor) ∧ actor.observer = some k ∧ actor.host = host ∧
        o = ⟨actor.node, c.id, actor.walker⟩ := by
    simp only [Scene.Watches, Scene.tie?_eq_node]
    rfl
  refine ⟨fun host k o => ?_, tidy.keys, ?_, fun name actor node => ?_, fun name d held => ?_, tidy.once, fun closed => ?_⟩
  · rw [observed]
    simp only [← watches]
    constructor
    · rintro ⟨found, own⟩
      exact holding.held found own
    · rintro ⟨name, held⟩
      exact ⟨holding.opened held, held.own⟩
  · intro name name' actor actor' k node node' held held'
    exact holding.alone (watches.mpr ⟨actor, node, held, rfl, rfl⟩) (watches.mpr ⟨actor', node', held', rfl, rfl⟩)
  · exact node_made fresh ops few (node?_eq_some.mpr ⟨c, there, node⟩)
  · obtain ⟨r, debugs⟩ : ∃ r, s.Debugs name d r := by
      rcases held with ⟨actor, found, taken⟩ | ⟨tracing, found, taken⟩
      · exact ⟨none, .inl ⟨Scene.tie?_eq_console.mpr ⟨actor, found, taken⟩, rfl⟩⟩
      · refine ⟨_, .inr ⟨?_, rfl⟩⟩
        rw [Scene.tracing, found]
        exact taken
    have live := holding.live debugs
    rw [Site.get?_hooks, Option.isSome_map] at live
    exact ⟨holding.made debugs, live⟩
  · have empty : c.registry.entries = [] := kept.emptied there (by simp [closed])
    -- Nobody is left to hold anything.
    have untied (name : String) : s.tie? name = none := by
      rw [Scene.tie?, Scene.find?, Registry.find?, empty]
      rfl
    have unwatched {name host : String} {k : ObserverId} {o : Observer} (held : s.Watches name host k o) : False := by
      obtain ⟨actor, tied, _⟩ := held
      rw [untied] at tied
      cases tied
    have idle {name : String} {d : DebuggerId} {r : Option Bool} (held : s.Debugs name d r) : False := by
      rcases held with ⟨tied, _⟩ | ⟨tracing, _⟩
      · rw [untied] at tied
        cases tied
      · have tied := holding.traced name d tracing
        rw [untied] at tied
        cases tied
    refine ⟨empty, fun host p member own => ?_, fun k node called => ?_, fun d called => ?_, fun p member hook set own => ?_⟩
    · obtain ⟨name, held⟩ := holding.held (observed.mp member) own
      exact unwatched held
    · refine (holding.closed called).resolve_left ?_
      rintro ⟨name, host, o, held⟩
      exact unwatched held
    · have unused : ¬ ∃ name r, s.Debugs name d r := by
        rintro ⟨name, r, held⟩
        exact idle held
      have dropped := (holding.dropped called).resolve_left unused
      refine ⟨dropped, ?_⟩
      have gone := (tidy.dropped _ dropped d rfl).2
      rwa [Site.get?_hooks, Option.map_eq_none_iff] at gone
    · have distinct : now.debuggers.keys.Nodup := Site.keys_hooks now ▸ tidy.hooks
      have found : now.hooks.get? p.1 = some (some hook) := by
        rw [Site.get?_hooks, (Table.get?_eq_some_iff distinct).mpr member, Option.map_some, set]
      obtain ⟨on, held⟩ := holding.hooked found own
      exact idle held

/-- A server with one host, before anything has happened. -/
def hosting (d : Dom) : Server := { site := { hosts := [("host", { dom := d })] } }

theorem fresh_hosting (d : Dom) : (hosting d).Fresh := by
  refine ⟨rfl, fun host => ?_, rfl, rfl⟩
  simp only [hosting, Site.host, Table.get?]
  split <;> rfl

def asking (target type : String) (more : Fields) : Op :=
  .receive 0 (.obj (("to", .str target) :: ("type", .str type) :: more))

/-- A client looks into a page, evaluates and traces, and hangs up. -/
theorem resources_held_hung_up : ∃ (v : Server) (ops : List Op) (c : Connection), v.Fresh ∧ (run v ops).Few ∧
    (run v ops).connection? 0 = some c ∧ c.isOpen = false ∧ c.registry.entries = [] ∧
    ⟨some 0, .observe 1 1⟩ ∈ history v ops ∧ ⟨some 0, .disconnect 1⟩ ∈ history v ops ∧
    ∀ d ∈ [1, 2], ⟨some 0, .newDebugger d⟩ ∈ history v ops ∧ ⟨some 0, .dropDebugger d⟩ ∈ history v ops := by
  let v := hosting Serve.pair
  let ops : List Op :=
    [.newPage 7 "host" ⟨"", ""⟩, .connect true false, asking "conn0.inspector1" "getWalker" [],
      asking "conn0.trace2" "attach" [], .report, asking "conn0.console4" "evaluateJS" [("text", .str "x")],
      .hangUp 0]
  have few : (run v ops).Few := .of_all (by decide +kernel)
  have fresh : v.Fresh := fresh_hosting _
  have closed : ((run v ops).connection? 0).map Connection.isOpen = some false := by decide +kernel
  have observed : ⟨some 0, .observe 1 1⟩ ∈ history v ops := by decide +kernel
  have made : ∀ d ∈ [1, 2], ⟨some 0, .newDebugger d⟩ ∈ history v ops := by decide +kernel
  clear_value ops v
  obtain ⟨c, there, closed⟩ := Option.map_eq_some_iff.mp closed
  have ended := (resources_held fresh ops few there).2.2.2.2.2.2 closed
  exact ⟨v, ops, c, fresh, few, there, closed, ended.1, observed, ended.2.2.1 1 1 observed,
    fun d member => ⟨made d member, (ended.2.2.2.1 d (made d member)).1⟩⟩

end Server

end RemoteInspector
