import Mathlib.Logic.Relation
import RemoteInspector.Proofs.Inspector.Releases
import RemoteInspector.Proofs.Site
import RemoteInspector.Proofs.Trace.Tracing
/-!
The moves of a connection: what changes the ties of walkers, node actors, consoles and tracers.
-/
namespace RemoteInspector

open Registry (Named)
open Relation (ReflTransGen)

def Registry.Taken (id : ConnectionId) (next : Nat) (name : String) : Prop :=
  name = Tabs.rootName ∨ Named id 0 next name

namespace Registry.Taken

variable {id : ConnectionId} {next next' : Nat} {name new : String}

theorem widen (taken : Taken id next name) (later : next ≤ next') : Taken id next' name :=
  taken.imp_right fun named => named.widen (Nat.le_refl 0) later

theorem ne_new (taken : Taken id next name) (named : Named id next next' new) (few : next' ≤ UInt32.size) :
    name ≠ new := by
  rintro rfl
  rcases taken with root | early
  · exact named.ne_root root
  · exact early.disjoint named (Nat.le_refl _) few

end Registry.Taken

open Registry (Taken)

namespace Scene

def tie? (s : Scene) (name : String) : Option Actor.Tie := (s.find? name).bind Actor.tie?

def Given (s : Scene) : Prop := ∀ name ∈ s.conn.registry.names, Taken s.conn.id s.conn.registry.next name

theorem Given.taken {s : Scene} {name : String} {actor : Actor} (given : s.Given)
    (found : s.find? name = some actor) : Taken s.conn.id s.conn.registry.next name :=
  given name (Registry.has_of_find? found).mem_names

/-- Scenes that agree in who is there, in what ties the actors and in what is open on the site. -/
structure Alike (s t : Scene) : Prop where
  id : t.conn.id = s.conn.id
  next : t.conn.registry.next = s.conn.registry.next
  names : t.conn.registry.names = s.conn.registry.names
  ties : ∀ name, t.tie? name = s.tie? name
  tracings : ∀ name, (s.tracing name).Same (t.tracing name)
  site : s.site.Quiet t.site

/-- Orphans are marked anew: those of before, or nodes that the walker knows. -/
structure Marked (s t : Scene) (own : String) : Prop where
  id : t.conn.id = s.conn.id
  next : t.conn.registry.next = s.conn.registry.next
  names : t.conn.registry.names = s.conn.registry.names
  others : ∀ name, name ≠ own → t.tie? name = s.tie? name
  tracings : t.conn.tracings = s.conn.tracings
  site : t.site = s.site
  marks : ∃ host root known orphans orphans',
    s.tie? own = some (.walker host root known orphans) ∧ t.tie? own = some (.walker host root known orphans') ∧
      (orphans.Nodup → orphans'.Nodup) ∧
      ∀ name ∈ orphans', name ∈ orphans ∨ ∃ node, known.get? node = some name

structure Extended (s t : Scene) (added : List Registry.Entry) (next : Nat) : Prop where
  id : t.conn.id = s.conn.id
  site : t.site = s.site
  tracings : t.conn.tracings = s.conn.tracings
  registry : t.conn.registry = s.conn.registry.extend added s.conn.registry.scripts next
  later : s.conn.registry.next ≤ next
  added : ∀ e ∈ added, Named s.conn.id s.conn.registry.next next e.name ∧ e.actor.Fresh

/-- The traces of an attached tracer change. Its debugger is switched to run as long as there are any. -/
structure Traces (s t : Scene) (tracer : String) (d : DebuggerId) (f : Tracing → Tracing) : Prop where
  attached : (s.tracing tracer).debugger = some d
  kept : (f (s.tracing tracer)).debugger = some d
  sound : (s.tracing tracer).Sound → (f (s.tracing tracer)).Sound
  conn : t.conn = (s.setTracing tracer f).conn
  site : t.site = s.site ∧ (f (s.tracing tracer)).active.isEmpty = (s.tracing tracer).active.isEmpty ∨
    t.site = s.site.setEnabled s.conn.id d !(f (s.tracing tracer)).active.isEmpty

/-- A walker, if it is there, looks into this host, or has made an actor for one of its nodes. -/
def Hosts (s : Scene) (own host : String) : Prop :=
  s.conn.registry.next ≤ UInt32.size → ∀ {host' root known orphans},
    s.tie? own = some (.walker host' root known orphans) →
      host' = host ∨ ∃ name actor, s.tie? name = some (.node actor) ∧ actor.walker = own ∧ actor.host = host

inductive Move (s : Scene) : Scene → Prop
  | idle {t : Scene} : s.Alike t → Move s t
  | mark {t : Scene} (own : String) : s.Marked t own → Move s t
  | extend {t : Scene} (added : List Registry.Entry) (next : Nat) : s.Extended t added next → Move s t
  | enrol (own host : String) (node : NodeId) : s.known? own node = none →
      Taken s.conn.id s.conn.registry.next own → s.Hosts own host →
      Move s (Walker.enrol s own host node (s.conn.registry.newName s.conn.id "domnode"))
  | release (name : String) : Move s (s.releaseOne name)
  | debug (self : String) (c : ConsoleActor) : s.find? self = some (.console c) → c.debugger = none →
      Move s ((Evaluation.debugger self c).after s)
  | attach (self host host' : String) : s.find? self = some (.trace host') → (s.tracing self).debugger = none →
      Move s ((Tracer.attach self host).after s)
  | detach (self : String) : Move s (s.detach self)
  | trace {t : Scene} (self : String) (d : DebuggerId) (f : Tracing → Tracing) : s.Traces t self d f → Move s t

def Goes (s t : Scene) : Prop := s.Given → ReflTransGen Move s t ∧ t.Given

theorem tracing_setTracing (s : Scene) (name : String) (f : Tracing → Tracing) (x : String) :
    (s.setTracing name f).tracing x = if x = name then f (s.tracing x) else s.tracing x := by
  simp only [tracing, setTracing, setConn, Table.get?_insert]
  by_cases same : x = name
  · simp [same]
  · simp [same, Ne.symm same]

theorem tracing_congr {s t : Scene} (same : t.conn.tracings = s.conn.tracings) (x : String) :
    t.tracing x = s.tracing x := by
  rw [tracing, tracing, same]

theorem tie?_congr {s t : Scene} (same : t.conn.registry = s.conn.registry) (x : String) : t.tie? x = s.tie? x := by
  rw [tie?, tie?, find?, find?, same]

namespace Traces

variable {s t : Scene} {self : String} {d : DebuggerId} {f : Tracing → Tracing} (traces : s.Traces t self d f)

include traces

theorem id : t.conn.id = s.conn.id := by
  rw [traces.conn]
  rfl

theorem registry : t.conn.registry = s.conn.registry := by
  rw [traces.conn]
  rfl

theorem tracing (x : String) : t.tracing x = if x = self then f (s.tracing x) else s.tracing x := by
  rw [← tracing_setTracing]
  exact tracing_congr (by rw [traces.conn]) x

end Traces

namespace Alike

variable {s t : Scene}

/-- A change of nothing but the site, which is quiet, and of what has been sent. -/
theorem same (id : t.conn.id = s.conn.id) (registry : t.conn.registry = s.conn.registry)
    (tracings : t.conn.tracings = s.conn.tracings) (site : s.site.Quiet t.site) : s.Alike t where
  id := id
  next := by rw [registry]
  names := by rw [registry]
  ties := tie?_congr registry
  tracings name := by
    rw [tracing, tracing, tracings]
    exact .refl _
  site := site

theorem setSite {f : Site → Site} (site : s.site.Quiet (f s.site)) : s.Alike (s.setSite f) :=
  same rfl rfl rfl site

theorem write (s : Scene) (packet : Json) : s.Alike (s.write packet) := by
  unfold Scene.write
  split <;> exact same rfl rfl rfl (.refl _)

/-- An actor changes in nothing that ties it. -/
theorem update (s : Scene) (name : String) {f : Actor → Actor}
    (kept : ∀ a, s.find? name = some a → (f a).tie? = a.tie?) : s.Alike (s.update name f) where
  id := rfl
  next := rfl
  names := Registry.names_update _ _
  ties x := by
    rw [tie?, tie?, find?_update]
    by_cases self : x = name
    · subst self
      cases found : s.find? x with
      | none => rfl
      | some a => simpa using kept a found
    · simp [self]
  tracings _ := .refl _
  site := .refl _

theorem setTracing (s : Scene) (name : String) {f : Tracing → Tracing} (kept : ∀ t : Tracing, t.Same (f t)) :
    s.Alike (s.setTracing name f) where
  id := rfl
  next := rfl
  names := rfl
  ties _ := rfl
  tracings x := by
    rw [tracing_setTracing]
    split
    · exact kept _
    · exact .refl _
  site := .refl _

end Alike

/-! ### Names after a move -/

namespace Given

variable {s t : Scene}

theorem congr (given : s.Given) (id : t.conn.id = s.conn.id) (next : t.conn.registry.next = s.conn.registry.next)
    (names : ∀ name ∈ t.conn.registry.names, name ∈ s.conn.registry.names) : t.Given := by
  intro name member
  rw [id, next]
  exact given name (names name member)

theorem extended {added : List Registry.Entry} {next : Nat} (given : s.Given) (extended : s.Extended t added next) :
    t.Given := by
  intro name member
  rw [extended.registry] at member ⊢
  rw [extended.id]
  rw [Registry.names_extend, List.mem_append] at member
  rcases member with old | new
  · exact (given name old).widen extended.later
  · obtain ⟨e, listed, rfl⟩ := List.mem_map.mp new
    exact .inr ((extended.added e listed).1.widen (Nat.zero_le _) (Nat.le_refl _))

theorem enrol (given : s.Given) (own host : String) (node : NodeId) :
    (Walker.enrol s own host node (s.conn.registry.newName s.conn.id "domnode")).Given := by
  intro name member
  change name ∈ (Registry.update _ own _).names at member
  rw [Registry.names_update] at member
  change name ∈ (s.conn.registry.entries ++ [_]).map _ at member
  rw [List.map_append, List.mem_append] at member
  change Taken s.conn.id (s.conn.registry.next + 1) name
  rcases member with old | new
  · exact (given name old).widen (Nat.le_succ _)
  · rw [List.mem_singleton.mp new]
    have named := s.named_domnode
    exact .inr (named.widen (Nat.zero_le _) (Nat.le_refl _))

theorem releaseOne (given : s.Given) (name : String) : (s.releaseOne name).Given := by
  have pruned := releaseOne_pruned s name
  exact given.congr (Silent.releaseOne s name).id pruned.next fun x member => pruned.names.subset member

theorem detach (given : s.Given) (name : String) : (s.detach name).Given := by
  refine given.congr (Silent.detach s name).id ?_ fun x member => ?_
  · rw [registry_detach]
  · rwa [registry_detach] at member

theorem debugger (given : s.Given) (self : String) (c : ConsoleActor) :
    ((Evaluation.debugger self c).after s).Given := by
  unfold Evaluation.debugger
  split
  · exact given
  · exact given.congr rfl rfl fun name member => Registry.names_update (r := s.conn.registry) self _ ▸ member

end Given

theorem Move.given {s t : Scene} (move : s.Move t) (given : s.Given) : t.Given := by
  cases move with
  | idle alike => exact given.congr alike.id alike.next fun _ member => alike.names ▸ member
  | mark own marked => exact given.congr marked.id marked.next fun _ member => marked.names ▸ member
  | extend added next extended => exact given.extended extended
  | enrol own host node => exact given.enrol own host node
  | release name => exact given.releaseOne name
  | debug self c live none => exact given.debugger self c
  | attach self host host' live none => exact given
  | detach self => exact given.detach self
  | trace self d f traces =>
    exact given.congr traces.id (by rw [traces.registry]) fun _ member => traces.registry ▸ member

/-! ### Going on -/

namespace Goes

variable {s t u : Scene}

theorem refl (s : Scene) : s.Goes s := fun given => ⟨.refl, given⟩

theorem trans (first : s.Goes t) (next : t.Goes u) : s.Goes u := by
  intro given
  obtain ⟨moves, given'⟩ := first given
  obtain ⟨moves', given''⟩ := next given'
  exact ⟨moves.trans moves', given''⟩

theorem move (move : s.Given → s.Move t) : s.Goes t := fun given => ⟨.single (move given), (move given).given given⟩

theorem idle (alike : s.Alike t) : s.Goes t := .move fun _ => .idle alike

theorem release (s : Scene) (name : String) : s.Goes (s.release name) :=
  release_rel refl trans (fun _ name => .move fun _ => .release name) s name

end Goes

end Scene

theorem Scene.Move.later {s t : Scene} (move : s.Move t) :
    t.conn.id = s.conn.id ∧ s.conn.registry.next ≤ t.conn.registry.next := by
  cases move with
  | idle alike => exact ⟨alike.id, Nat.le_of_eq alike.next.symm⟩
  | mark own marked => exact ⟨marked.id, Nat.le_of_eq marked.next.symm⟩
  | extend added next extended =>
    refine ⟨extended.id, ?_⟩
    rw [extended.registry]
    exact extended.later
  | enrol own host node => exact ⟨rfl, Nat.le_succ _⟩
  | release name => exact ⟨(Silent.releaseOne s name).id, Nat.le_of_eq (releaseOne_pruned s name).next.symm⟩
  | debug self c live none =>
    unfold Evaluation.debugger
    split <;> exact ⟨rfl, Nat.le_refl _⟩
  | attach self host host' live none => exact ⟨rfl, Nat.le_refl _⟩
  | detach self => exact ⟨(Silent.detach s self).id, Nat.le_of_eq (congrArg _ (registry_detach s self).symm)⟩
  | trace self d f traces => exact ⟨traces.id, Nat.le_of_eq (congrArg _ traces.registry.symm)⟩

theorem Scene.Moves.given {s t : Scene} (moves : ReflTransGen Scene.Move s t) (given : s.Given) : t.Given := by
  induction moves with
  | refl => exact given
  | tail _ move ih => exact move.given ih

theorem Scene.Moves.later {s t : Scene} (moves : ReflTransGen Scene.Move s t) :
    t.conn.id = s.conn.id ∧ s.conn.registry.next ≤ t.conn.registry.next := by
  induction moves with
  | refl => exact ⟨rfl, Nat.le_refl _⟩
  | tail _ move ih => exact ⟨move.later.1.trans ih.1, Nat.le_trans ih.2 move.later.2⟩

namespace Actor.Tie

def learn (node : NodeId) (name : String) : Tie → Tie
  | .walker host top known orphans => .walker host top (known.insert node name) orphans
  | other => other

def forget (node : NodeId) (name : String) : Tie → Tie
  | .walker host top known orphans =>
    .walker host top (if known.get? node = some name then known.erase node else known) (orphans.filter (· ≠ name))
  | other => other

def Plain : Tie → Prop
  | .walker .. => False
  | _ => True

theorem map_eq_plain {old : Option Tie} {tie : Tie} {f : Tie → Tie} (here : Prop) [Decidable here] (plain : tie.Plain)
    (tame : ∀ tie, f tie = tie ∨ ¬ tie.Plain ∧ ¬ (f tie).Plain) :
    old.map (fun tie => if here then f tie else tie) = some tie ↔ old = some tie := by
  cases old with
  | none => simp
  | some before =>
    rw [Option.map_some]
    split
    · rcases tame before with same | ⟨walker, walker'⟩
      · rw [same]
      · constructor
        · rintro ⟨rfl⟩
          exact absurd plain walker'
        · rintro ⟨rfl⟩
          exact absurd plain walker
    · rfl

theorem learn_tame (node : NodeId) (name : String) (tie : Tie) :
    tie.learn node name = tie ∨ ¬ tie.Plain ∧ ¬ (tie.learn node name).Plain := by
  cases tie with
  | walker => exact .inr ⟨id, id⟩
  | _ => exact .inl rfl

theorem forget_tame (node : NodeId) (name : String) (tie : Tie) :
    tie.forget node name = tie ∨ ¬ tie.Plain ∧ ¬ (tie.forget node name).Plain := by
  cases tie with
  | walker => exact .inr ⟨id, id⟩
  | _ => exact .inl rfl

end Actor.Tie

namespace Scene

variable {own host : String} {root : NodeId} {known : Table NodeId String} {orphans : List String}

variable {s t : Scene}

theorem tie?_eq_node {name : String} {actor : NodeActor} :
    s.tie? name = some (.node actor) ↔ s.find? name = some (.node actor) := by
  unfold tie?
  cases s.find? name with
  | none => simp
  | some a => cases a <;> simp [Actor.tie?]

theorem tie?_eq_console {name : String} {debugger : Option DebuggerId} :
    s.tie? name = some (.console debugger) ↔ ∃ c, s.find? name = some (.console c) ∧ c.debugger = debugger := by
  unfold tie?
  cases s.find? name with
  | none => simp
  | some a => cases a <;> simp [Actor.tie?]

theorem tie?_eq_trace {name : String} : s.tie? name = some .trace ↔ ∃ host, s.find? name = some (.trace host) := by
  unfold tie?
  cases s.find? name with
  | none => simp
  | some a => cases a <;> simp [Actor.tie?]

theorem tie?_of_walker {name : String} {w : WalkerActor} (found : s.find? name = some (.walker w)) :
    s.tie? name = some (.walker w.host w.root w.known w.orphans) := by
  rw [tie?, found]
  rfl

theorem Given.find?_new {next : Nat} {name : String} (given : s.Given)
    (named : Named s.conn.id s.conn.registry.next next name) (few : next ≤ UInt32.size) : s.find? name = none := by
  cases found : s.find? name with
  | none => rfl
  | some actor => exact absurd rfl ((given.taken found).ne_new named few)

/-! ### Coming -/

namespace Extended

variable {x : String}

variable {added : List Registry.Entry} {next : Nat} (extended : s.Extended t added next)

include extended

theorem find? (x : String) : t.find? x = (s.find? x).or ((added.find? (·.name = x)).map (·.actor)) := by
  rw [Scene.find?, extended.registry, Registry.find?_extend, Scene.find?]

/-- Who was there stays as it was; who is new has a new name and holds nothing. -/
theorem tie? (x : String) : t.tie? x = s.tie? x ∨
    s.find? x = none ∧ Named s.conn.id s.conn.registry.next next x ∧ ∃ actor, actor.Fresh ∧ t.find? x = some actor := by
  have found := extended.find? x
  cases old : s.find? x with
  | some actor =>
    rw [old, Option.some_or] at found
    left
    rw [Scene.tie?, Scene.tie?, found, old]
  | none =>
    rw [old, Option.none_or] at found
    cases new : added.find? (·.name = x) with
    | none =>
      rw [new] at found
      left
      rw [Scene.tie?, Scene.tie?, found, old, Option.map_none]
    | some e =>
      rw [new] at found
      have listed := List.mem_of_find?_eq_some new
      have named : e.name = x := by simpa using List.find?_some new
      exact .inr ⟨rfl, named ▸ (extended.added e listed).1, e.actor, (extended.added e listed).2, found⟩

theorem tie?_of_old {tie : Actor.Tie} (old : s.tie? x = some tie) : t.tie? x = some tie := by
  rcases extended.tie? x with same | ⟨absent, _⟩
  · exact same.trans old
  · rw [Scene.tie?, absent] at old
    cases old

theorem tie?_node {actor : NodeActor} (tied : t.tie? x = some (.node actor)) : s.tie? x = some (.node actor) := by
  rcases extended.tie? x with same | ⟨_, _, fresh, isFresh, found⟩
  · exact same.symm.trans tied
  · rw [tie?_eq_node, found] at tied
    cases tied
    exact isFresh.elim

theorem tie?_walker {host : String} {root : NodeId} {known : Table NodeId String} {orphans : List String}
    (tied : t.tie? x = some (.walker host root known orphans)) :
    s.tie? x = some (.walker host root known orphans) ∨
      known = [] ∧ orphans = [] ∧ Named s.conn.id s.conn.registry.next next x := by
  rcases extended.tie? x with same | ⟨_, named, fresh, isFresh, found⟩
  · exact .inl (same.symm.trans tied)
  · rw [Scene.tie?, found, Option.bind_some] at tied
    cases fresh with
    | walker w =>
      cases tied
      exact .inr ⟨isFresh.1, isFresh.2, named⟩
    | _ => cases tied

end Extended

theorem tie?_enrol {name : String} (host : String) (node : NodeId) (fresh : s.find? name = none) (other : own ≠ name)
    (x : String) :
    (Walker.enrol s own host node name).tie? x =
      if x = name then some (.node ⟨host, own, node, Walker.watch s host node⟩)
      else (s.tie? x).map fun tie => if x = own then tie.learn node name else tie := by
  rw [tie?, Walker.enrol, find?_update]
  change (((Registry.add _ _).find? x).map _).bind _ = _
  rw [Registry.find?_add]
  change (((s.find? x).or _).map _).bind _ = _
  by_cases new : x = name
  · subst new
    simp [fresh, Ne.symm other, Actor.tie?]
  · rw [tie?, if_neg new, if_neg (Ne.symm new), Option.or_none]
    cases s.find? x with
    | none => rfl
    | some a =>
      by_cases self : x = own
      · simp only [self, if_true, Option.map_some, Option.bind_some]
        cases a <;> rfl
      · simp [self]

theorem plain_enrol {name : String} (host : String) (node : NodeId) (fresh : s.find? name = none) (other : own ≠ name)
    {x : String} {tie : Actor.Tie} (plain : tie.Plain) :
    (Walker.enrol s own host node name).tie? x = some tie ↔
      (x = name ∧ tie = .node ⟨host, own, node, Walker.watch s host node⟩) ∨ s.tie? x = some tie := by
  rw [tie?_enrol host node fresh other]
  by_cases new : x = name
  · have absent : s.tie? x = none := by
      rw [tie?, new, fresh]
      rfl
    simp [new, new ▸ absent, eq_comm]
  · rw [if_neg new, Actor.Tie.map_eq_plain _ plain (Actor.Tie.learn_tame node name)]
    simp [new]

/-! ### Leaving -/

theorem tie?_update_of_kept {name : String} {f : Actor → Actor} (kept : ∀ a, (f a).tie? = a.tie?) (x : String) :
    (s.update name f).tie? x = s.tie? x := (Alike.update s name fun a _ => kept a).ties x

theorem find?_detach (s : Scene) (name x : String) : (s.detach name).find? x = s.find? x := by
  rw [find?, registry_detach]
  rfl

theorem tie?_releaseOne {name : String} (other : ∀ actor, s.find? name ≠ some (.node actor)) (x : String) :
    (s.releaseOne name).tie? x = if x = name then none else s.tie? x := by
  have removed : (s.setRegistry (·.remove name)).tie? x = if x = name then none else s.tie? x := by
    rw [tie?, tie?]
    change ((Registry.remove _ _).find? x).bind _ = _
    rw [Registry.find?_remove]
    split <;> rfl
  unfold releaseOne
  cases found : s.find? name with
  | none =>
    dsimp only
    split
    · rename_i self
      rw [self, tie?, found]
      rfl
    · rfl
  | some a =>
    dsimp only
    rw [← removed]
    cases a with
    | node actor => exact absurd found (other actor)
    | console c =>
      simp only [destroy]
      split <;> rfl
    | network n =>
      refine tie?_update_of_kept (fun b => ?_) x
      cases b <;> rfl
    | trace host =>
      simp only [destroy]
      rw [tie?, find?_detach]
      rfl
    | _ => rfl

theorem tie?_releaseNode {name : String} {actor : NodeActor} (found : s.find? name = some (.node actor))
    (x : String) : (s.releaseOne name).tie? x =
      if x = name then none
      else (s.tie? x).map fun tie => if x = actor.walker then tie.forget actor.node name else tie := by
  rw [tie?, releaseOne_node found]
  by_cases self : x = name
  · rw [if_pos self, if_pos self]
    rfl
  · rw [if_neg self, if_neg self, tie?]
    cases s.find? x with
    | none => rfl
    | some b =>
      by_cases own : x = actor.walker
      · simp only [own, if_true, Option.map_some, Option.bind_some]
        cases b <;> rfl
      · simp [own]

theorem plain_releaseOne (s : Scene) (name : String) {x : String} {tie : Actor.Tie} (plain : tie.Plain) :
    (s.releaseOne name).tie? x = some tie ↔ x ≠ name ∧ s.tie? x = some tie := by
  by_cases node : ∃ actor, s.find? name = some (.node actor)
  · obtain ⟨actor, found⟩ := node
    rw [tie?_releaseNode found]
    by_cases self : x = name
    · simp [self]
    · rw [if_neg self, Actor.Tie.map_eq_plain _ plain (Actor.Tie.forget_tame actor.node name)]
      simp [self]
  · rw [tie?_releaseOne (not_exists.mp node)]
    by_cases self : x = name <;> simp [self]

/-! ### Sessions -/

theorem tie?_debugger {self : String} {c : ConsoleActor} (live : s.find? self = some (.console c))
    (none : c.debugger = none) (x : String) : ((Evaluation.debugger self c).after s).tie? x =
      if x = self then some (.console (some s.site.nextDebugger)) else s.tie? x := by
  obtain ⟨f, updated, sets⟩ : ∃ f : Actor → Actor, ((Evaluation.debugger self c).after s).find? x =
      (s.find? x).map (fun a => if x = self then f a else a) ∧
        f (.console c) = .console { c with debugger := some s.site.nextDebugger } := by
    unfold Evaluation.debugger
    rw [none]
    exact ⟨_, Registry.find?_update _ _ _ _, rfl⟩
  rw [tie?, updated]
  by_cases same : x = self
  · rw [same, live]
    simp [sets, Actor.tie?]
  · simp [same, tie?]

/-! ### Walkers stay where they are -/

theorem walker_of_map {tie : Option Actor.Tie} {f : Actor.Tie → Actor.Tie}
    (kept : ∀ tie, f tie = .walker host root known orphans → ∃ known orphans, tie = .walker host root known orphans)
    (mapped : tie.map f = some (.walker host root known orphans)) :
    ∃ known orphans, tie = some (.walker host root known orphans) := by
  obtain ⟨tie, rfl, after⟩ := Option.map_eq_some_iff.mp mapped
  obtain ⟨known, orphans, rfl⟩ := kept tie after
  exact ⟨known, orphans, rfl⟩

/-- A walker that is there after a move and whose name was taken was there before, with the same host. -/
theorem Move.walker (move : s.Move t) (few : t.Few) (given : s.Given)
    (taken : Taken s.conn.id s.conn.registry.next own) (tied : t.tie? own = some (.walker host root known orphans)) :
    ∃ known orphans, s.tie? own = some (.walker host root known orphans) := by
  cases move with
  | idle alike => exact ⟨known, orphans, alike.ties own ▸ tied⟩
  | mark own' marked =>
    by_cases self : own = own'
    · subst self
      obtain ⟨_, _, _, old, _, before, after, _⟩ := marked.marks
      rw [after] at tied
      cases tied
      exact ⟨known, old, before⟩
    · exact ⟨known, orphans, marked.others own self ▸ tied⟩
  | extend added next extended =>
    rw [Scene.Few, extended.registry] at few
    rcases extended.tie?_walker tied with before | ⟨_, _, named⟩
    · exact ⟨known, orphans, before⟩
    · exact absurd rfl (taken.ne_new named few)
  | enrol own' host' node unknown taken' hosts =>
    have named := s.named_domnode
    rw [tie?_enrol host' node (given.find?_new named few) (taken'.ne_new named few)] at tied
    split at tied
    · cases tied
    · refine walker_of_map (fun tie after => ?_) tied
      split at after
      · cases tie with
        | walker => cases after; exact ⟨_, _, rfl⟩
        | _ => cases after
      · exact ⟨_, _, after⟩
  | release name =>
    by_cases node : ∃ actor, s.find? name = some (.node actor)
    · obtain ⟨actor, found⟩ := node
      rw [tie?_releaseNode found] at tied
      split at tied
      · cases tied
      · refine walker_of_map (fun tie after => ?_) tied
        split at after
        · cases tie with
          | walker => cases after; exact ⟨_, _, rfl⟩
          | _ => cases after
        · exact ⟨_, _, after⟩
    · rw [tie?_releaseOne (not_exists.mp node)] at tied
      split at tied
      · cases tied
      · exact ⟨known, orphans, tied⟩
  | debug self c live none =>
    rw [tie?_debugger live none] at tied
    split at tied
    · cases tied
    · exact ⟨known, orphans, tied⟩
  | attach self host' host'' live none => exact ⟨known, orphans, tied⟩
  | detach self =>
    rw [tie?, find?_detach] at tied
    exact ⟨known, orphans, tied⟩
  | trace self d f traces =>
    rw [tie?_congr traces.registry] at tied
    exact ⟨known, orphans, tied⟩

theorem Moves.walker (moves : ReflTransGen Move s t) (few : t.Few) (given : s.Given)
    (taken : Taken s.conn.id s.conn.registry.next own) (tied : t.tie? own = some (.walker host root known orphans)) :
    ∃ known orphans, s.tie? own = some (.walker host root known orphans) := by
  induction moves generalizing known orphans with
  | refl => exact ⟨known, orphans, tied⟩
  | tail moves move ih =>
    have later := Moves.later moves
    have given' := Moves.given moves given
    obtain ⟨known', orphans', tied⟩ := move.walker few given' (later.1 ▸ taken.widen later.2) tied
    exact ih (Nat.le_trans move.later.2 few) tied

end Scene

end RemoteInspector
