import Mathlib.Data.List.Perm.Subperm
import Mathlib.Logic.Relation
import RemoteInspector.Proofs.Registry.Valid
import RemoteInspector.Scene
/-!
Releasing: an actor leaves the registry with all that it owns, and nothing else leaves with it.
-/
namespace RemoteInspector

/-- Numbers for names have not run out yet. -/
abbrev Connection.Few (c : Connection) : Prop := c.registry.next ≤ UInt32.size

abbrev Scene.Few (s : Scene) : Prop := s.conn.registry.next ≤ UInt32.size

abbrev Scene.Valid (s : Scene) : Prop := s.conn.registry.Valid s.conn.id

theorem Scene.named_domnode (s : Scene) : Registry.Named s.conn.id s.conn.registry.next (s.conn.registry.next + 1)
    (s.conn.registry.newName s.conn.id "domnode") := Registry.newName_named (by decide) _ _

namespace Registry

variable {owner name : String} {rank n : Nat}

variable {id : ConnectionId} {r r' r'' : Registry} {gone gone' : String → Prop}

structure Entry.Alike (e e' : Entry) : Prop where
  name : e'.name = e.name
  owner : e'.owner = e.owner
  actor : e.actor.Alike e'.actor

theorem Entry.Alike.trans {e e' e'' : Entry} (first : e.Alike e') (next : e'.Alike e'') : e.Alike e'' :=
  ⟨next.name.trans first.name, next.owner.trans first.owner, first.actor.trans next.actor⟩

/-- Some actors have left the registry, and the others are as before. -/
structure Pruned (r r' : Registry) (gone : String → Prop) : Prop where
  next : r'.next = r.next
  names : r'.names.Sublist r.names
  stays : ∀ e ∈ r.entries, ¬ gone e.name → ∃ e' ∈ r'.entries, e.Alike e'
  stood : ∀ e' ∈ r'.entries, ¬ gone e'.name ∧ ∃ e ∈ r.entries, e.Alike e'
  scripts : ∀ p ∈ r'.scripts, p ∈ r.scripts ∧ (p.2 ∈ r.names → ¬ gone p.2)

namespace Pruned

variable {name : String}

theorem congr (pruned : Pruned r r' gone) (same : ∀ name, gone name ↔ gone' name) : Pruned r r' gone' := by
  rw [funext fun name => propext (same name)] at pruned
  exact pruned

theorem absent (unregistered : name ∉ r.names) : Pruned r r (· = name) where
  next := rfl
  names := List.Sublist.refl _
  stays e member _ := ⟨e, member, rfl, rfl, .refl _⟩
  stood e member := by
    refine ⟨fun same => unregistered (same ▸ List.mem_map_of_mem member), e, member, rfl, rfl, .refl _⟩
  scripts _ member := ⟨member, fun registered same => unregistered (same ▸ registered)⟩

theorem refl (r : Registry) : Pruned r r (fun _ => False) where
  next := rfl
  names := List.Sublist.refl _
  stays e member _ := ⟨e, member, rfl, rfl, .refl _⟩
  stood e member := ⟨False.elim, e, member, rfl, rfl, .refl _⟩
  scripts _ member := ⟨member, fun _ => False.elim⟩

theorem remove (name : String) : Pruned r (r.remove name) (· = name) where
  next := rfl
  names := List.filter_sublist.map _
  stays e member other := ⟨e, List.mem_filter.mpr ⟨member, by simpa using other⟩, rfl, rfl, .refl _⟩
  stood e member := by
    obtain ⟨member, other⟩ := List.mem_filter.mp member
    exact ⟨by simpa using other, e, member, rfl, rfl, .refl _⟩
  scripts p member := by
    obtain ⟨member, other⟩ := List.mem_filter.mp member
    exact ⟨member, fun _ => by simpa using other⟩

theorem update {f : Actor → Actor} (alike : ∀ e ∈ r.entries, e.name = name → e.actor.Alike (f e.actor)) :
    Pruned r (r.update name f) (fun _ => False) where
  next := rfl
  names := by rw [names_update]
  stays e member _ := by
    by_cases same : e.name = name
    · exact ⟨_, mem_update.mpr (.inr ⟨e, member, same, rfl⟩), rfl, rfl, alike e member same⟩
    · exact ⟨e, mem_update.mpr (.inl ⟨member, same⟩), rfl, rfl, .refl _⟩
  stood e member := by
    refine ⟨id, ?_⟩
    rcases mem_update.mp member with ⟨listed, _⟩ | ⟨old, listed, same, rfl⟩
    · exact ⟨e, listed, rfl, rfl, .refl _⟩
    · exact ⟨old, listed, rfl, rfl, alike old listed same⟩
  scripts _ member := ⟨member, fun _ => id⟩

theorem trans (first : Pruned r r' gone) (next : Pruned r' r'' gone') :
    Pruned r r'' (fun name => gone name ∨ gone' name) where
  next := next.next.trans first.next
  names := next.names.trans first.names
  stays e member neither := by
    obtain ⟨e', member', alike⟩ := first.stays e member fun h => neither (.inl h)
    obtain ⟨e'', member'', alike'⟩ := next.stays e' member' fun h => neither (.inr (alike.name ▸ h))
    exact ⟨e'', member'', alike.trans alike'⟩
  stood e'' member'' := by
    obtain ⟨late, e', member', alike'⟩ := next.stood e'' member''
    obtain ⟨early, e, member, alike⟩ := first.stood e' member'
    exact ⟨fun either => either.elim (fun h => early (alike'.name ▸ h)) late, e, member, alike.trans alike'⟩
  scripts p member := by
    obtain ⟨member', late⟩ := next.scripts p member
    obtain ⟨member, early⟩ := first.scripts p member'
    refine ⟨member, fun registered either => either.elim (early registered) fun h => ?_⟩
    obtain ⟨e, listed, same⟩ := List.mem_map.mp registered
    obtain ⟨e', listed', alike⟩ := first.stays e listed (same ▸ early registered)
    exact late (same ▸ alike.name ▸ List.mem_map_of_mem listed') h

theorem mem_names (pruned : Pruned r r' gone) : name ∈ r'.names ↔ name ∈ r.names ∧ ¬ gone name := by
  constructor
  · intro member
    obtain ⟨e', listed, rfl⟩ := List.mem_map.mp member
    exact ⟨pruned.names.subset member, (pruned.stood e' listed).1⟩
  · rintro ⟨member, stays⟩
    obtain ⟨e, listed, rfl⟩ := List.mem_map.mp member
    obtain ⟨e', listed', alike⟩ := pruned.stays e listed stays
    exact alike.name ▸ List.mem_map_of_mem listed'

theorem has (pruned : Pruned r r' gone) {rank : Nat} : r'.Has name rank ↔ r.Has name rank ∧ ¬ gone name := by
  constructor
  · rintro ⟨e', listed, rfl, rfl⟩
    obtain ⟨stood, e, listed, alike⟩ := pruned.stood e' listed
    exact ⟨⟨e, listed, alike.name.symm, alike.actor.rank.symm⟩, stood⟩
  · rintro ⟨⟨e, listed, rfl, rfl⟩, stays⟩
    obtain ⟨e', listed', alike⟩ := pruned.stays e listed stays
    exact ⟨e', listed', alike.name, alike.actor.rank⟩

end Pruned

/-- A registry stays in order if all that the leaving actors own leaves with them. -/
theorem Valid.prune (valid : r.Valid id) (pruned : Pruned r r' gone)
    (closed : ∀ e ∈ r.entries, ∀ owner, e.owner = some owner → gone owner → gone e.name) : r'.Valid id where
  nodup := pruned.names.nodup valid.nodup
  root e' member unowned := by
    obtain ⟨_, e, listed, alike⟩ := pruned.stood e' member
    rw [alike.name, alike.actor.rank]
    exact valid.root e listed (alike.owner.symm.trans unowned)
  owned e' member owner owned := by
    obtain ⟨stood, e, listed, alike⟩ := pruned.stood e' member
    have owned : e.owner = some owner := alike.owner.symm.trans owned
    obtain ⟨named, rank, above, has⟩ := valid.owned e listed owner owned
    have owner_stays : ¬ gone owner := fun left => stood (alike.name ▸ closed e listed owner owned left)
    refine ⟨?_, rank, alike.actor.rank ▸ above, pruned.has.mpr ⟨has, owner_stays⟩⟩
    rw [alike.name, pruned.next]
    exact named
  scripts p member := by
    obtain ⟨member, stays⟩ := pruned.scripts p member
    obtain ⟨e, listed, named, actor, found, number⟩ := valid.scripts p member
    obtain ⟨e', listed', alike⟩ :=
      pruned.stays e listed (named ▸ stays (named ▸ List.mem_map_of_mem listed))
    exact ⟨e', listed', alike.name.trans named, actor, alike.actor.object.trans found, number⟩
  objects e' member actor found := by
    obtain ⟨_, e, listed, alike⟩ := pruned.stood e' member
    rw [alike.owner]
    exact valid.objects e listed actor (alike.actor.object.symm.trans found)
  mentions e' member name mentioned := by
    obtain ⟨_, e, listed, alike⟩ := pruned.stood e' member
    obtain ⟨named, below⟩ := valid.mentions e listed name (alike.actor.mentions mentioned)
    refine ⟨pruned.next ▸ named, fun rank has => ?_⟩
    rw [alike.actor.rank]
    exact below rank (pruned.has.mp has).1

/-! ### The tree of owners -/

def Owns (r : Registry) (owner name : String) : Prop := name ∈ r.children owner

/-- The second actor is the first, or is owned by it through others. -/
def Under (r : Registry) : String → String → Prop := Relation.ReflTransGen r.Owns

theorem owns_iff : r.Owns owner name ↔ ∃ e ∈ r.entries, e.name = name ∧ e.owner = some owner := by
  simp only [Owns, children, List.mem_map, List.mem_filter, decide_eq_true_eq]
  constructor
  · rintro ⟨e, ⟨member, owned⟩, named⟩
    exact ⟨e, member, named, owned⟩
  · rintro ⟨e, member, named, owned⟩
    exact ⟨e, ⟨member, owned⟩, named⟩

theorem Valid.rank_lt (valid : r.Valid id) (owns : r.Owns owner name) (has : r.Has owner rank) :
    ∃ rank', r.Has name rank' ∧ rank < rank' := by
  obtain ⟨e, member, named, owned⟩ := owns_iff.mp owns
  obtain ⟨_, rank', above, has'⟩ := valid.owned e member owner owned
  exact ⟨_, ⟨e, member, named, rfl⟩, valid.has_unique has has' ▸ above⟩

theorem Valid.rank_le (valid : r.Valid id) (under : r.Under owner name) (has : r.Has owner rank) :
    ∃ rank', r.Has name rank' ∧ rank ≤ rank' := by
  induction under with
  | refl => exact ⟨rank, has, Nat.le_refl _⟩
  | tail _ owns ih =>
    obtain ⟨middle, has', above⟩ := ih
    obtain ⟨rank', has'', below⟩ := valid.rank_lt owns has'
    exact ⟨rank', has'', Nat.le_of_lt (Nat.lt_of_le_of_lt above below)⟩

def Reaches (r : Registry) : Nat → String → String → Prop
  | 0, owner, name => name = owner
  | n + 1, owner, name => ∃ child, r.Owns owner child ∧ r.Reaches n child name

theorem Under.reaches (under : r.Under owner name) : ∃ n, r.Reaches n owner name := by
  induction under using Relation.ReflTransGen.head_induction_on with
  | refl => exact ⟨0, rfl⟩
  | head owns _ ih =>
    obtain ⟨n, reaches⟩ := ih
    exact ⟨n + 1, _, owns, reaches⟩

theorem Valid.reaches_path (valid : r.Valid id) (reaches : r.Reaches n owner name) :
    ∃ path : List String, path.length = n ∧ path.Nodup ∧
      ∀ x ∈ path, ∃ rank, r.Has x rank ∧ ∀ top, r.Has owner top → top < rank := by
  induction n generalizing owner with
  | zero => exact ⟨[], rfl, List.nodup_nil, by simp⟩
  | succ n ih =>
    obtain ⟨child, owns, reaches⟩ := reaches
    obtain ⟨path, length, nodup, below⟩ := ih reaches
    obtain ⟨e, member, named, _⟩ := owns_iff.mp owns
    have has : r.Has child e.actor.rank := ⟨e, member, named, rfl⟩
    have child_below (top : Nat) (has_top : r.Has owner top) : top < e.actor.rank := by
      obtain ⟨rank, has', above⟩ := valid.rank_lt owns has_top
      exact valid.has_unique has has' ▸ above
    refine ⟨child :: path, congrArg Nat.succ length, List.nodup_cons.mpr ⟨fun again => ?_, nodup⟩, ?_⟩
    · obtain ⟨rank, has', above⟩ := below child again
      exact absurd (above _ has) (valid.has_unique has has' ▸ Nat.lt_irrefl _)
    · intro x member
      rcases List.mem_cons.mp member with rfl | member
      · exact ⟨_, has, child_below⟩
      · obtain ⟨rank, has', above⟩ := below x member
        exact ⟨rank, has', fun top has_top => Nat.lt_trans (child_below top has_top) (above _ has)⟩

theorem Valid.reaches_le (valid : r.Valid id) (reaches : r.Reaches n owner name) : n ≤ r.entries.length := by
  obtain ⟨path, rfl, nodup, registered⟩ := valid.reaches_path reaches
  have subset : path ⊆ r.names := fun x member =>
    let ⟨_, has, _⟩ := registered x member
    has.mem_names
  calc path.length ≤ r.names.length := (List.subperm_of_subset nodup subset).length_le
    _ = r.entries.length := List.length_map _

theorem mem_releaseOrder_of_reaches {fuel : Nat} (reaches : r.Reaches n owner name) (enough : n ≤ fuel) :
    name ∈ r.releaseOrder fuel owner := by
  induction fuel generalizing n owner with
  | zero =>
    cases Nat.le_zero.mp enough
    exact List.mem_singleton.mpr reaches
  | succ fuel ih =>
    cases n with
    | zero => exact List.mem_append_right _ (List.mem_singleton.mpr reaches)
    | succ n =>
      obtain ⟨child, owns, reaches⟩ := reaches
      exact List.mem_append_left _ (List.mem_flatMap.mpr
        ⟨child, List.mem_reverse.mpr owns, ih reaches (Nat.le_of_succ_le_succ enough)⟩)

theorem releaseOrder_childless (childless : r.children name = []) (fuel : Nat) : r.releaseOrder fuel name = [name] := by
  cases fuel with
  | zero => rfl
  | succ fuel => simp [releaseOrder, childless]

theorem Valid.childless (valid : r.Valid id) (absent : r.find? name = none) : r.children name = [] := by
  refine List.eq_nil_iff_forall_not_mem.mpr fun child owned => ?_
  obtain ⟨e, member, _, owner⟩ := owns_iff.mp owned
  obtain ⟨_, _, _, has⟩ := valid.owned e member name owner
  exact find?_eq_none.mp absent has.mem_names

theorem under_of_mem_releaseOrder {fuel : Nat} (member : name ∈ r.releaseOrder fuel owner) : r.Under owner name := by
  induction fuel generalizing owner with
  | zero => exact List.mem_singleton.mp member ▸ .refl
  | succ fuel ih =>
    rcases List.mem_append.mp member with below | self
    · obtain ⟨child, owns, below⟩ := List.mem_flatMap.mp below
      exact .head (List.mem_reverse.mp owns) (ih below)
    · exact List.mem_singleton.mp self ▸ .refl

theorem Valid.mem_releaseOrder (valid : r.Valid id) :
    name ∈ r.releaseOrder r.entries.length owner ↔ r.Under owner name := by
  refine ⟨under_of_mem_releaseOrder, fun under => ?_⟩
  obtain ⟨n, reaches⟩ := under.reaches
  exact mem_releaseOrder_of_reaches reaches (valid.reaches_le reaches)

end Registry

/-! ### Scenes -/

namespace Actor

theorem alike_forget (node : NodeId) (name : String) (a : Actor) :
    a.Alike (match a with
      | .walker w => .walker (w.forget node name)
      | other => other) := by
  cases a <;> exact ⟨rfl, rfl, List.Subset.refl _⟩

theorem alike_forgetActor (name : String) (a : Actor) :
    a.Alike (match a with
      | .console c => .console (c.forgetActor name)
      | other => other) := by
  cases a with
  | console c => exact ⟨rfl, rfl, (List.filter_sublist.map Prod.snd).subset⟩
  | _ => exact .refl _

end Actor

namespace Scene

open Registry (Pruned)

variable {id : ConnectionId} {s : Scene}

theorem find?_update (s : Scene) (name other : String) (f : Actor → Actor) :
    (s.update name f).find? other = (s.find? other).map fun a => if other = name then f a else a :=
  Registry.find?_update _ _ _ _

theorem registry_detach (s : Scene) (name : String) : (s.detach name).conn.registry = s.conn.registry := by
  unfold detach
  dsimp only
  split
  · rfl
  · split <;> rfl

theorem update_pruned (s : Scene) (name : String) {f : Actor → Actor} (alike : ∀ a : Actor, a.Alike (f a)) :
    Pruned s.conn.registry (s.update name f).conn.registry (fun _ => False) :=
  .update fun e _ _ => alike e.actor

theorem destroy_pruned (s : Scene) (name : String) (actor : Actor) :
    Pruned s.conn.registry (s.destroy name actor).conn.registry (fun _ => False) := by
  have unchanged := Pruned.refl s.conn.registry
  cases actor with
  | node actor =>
    simp only [destroy]
    split <;> exact update_pruned _ _ fun a => a.alike_forget _ _
  | console actor =>
    simp only [destroy]
    split <;> exact unchanged
  | network actor => exact update_pruned _ _ fun a => a.alike_forgetActor _
  | trace host =>
    rw [destroy, registry_detach]
    exact unchanged
  | _ => exact unchanged

theorem releaseOne_absent {name : String} (absent : s.find? name = none) : s.releaseOne name = s := by
  rw [releaseOne, absent]

theorem releaseOne_pruned (s : Scene) (name : String) :
    Pruned s.conn.registry (s.releaseOne name).conn.registry (· = name) := by
  unfold releaseOne
  split
  · rename_i actor _
    exact ((Pruned.remove name).trans (destroy_pruned (s.setRegistry (·.remove name)) name actor)).congr
      fun _ => or_iff_left False.elim
  · rename_i unregistered
    exact .absent (Registry.find?_eq_none.mp unregistered)

theorem releaseAllOf_pruned (s : Scene) (names : List String) :
    Pruned s.conn.registry (names.foldl releaseOne s).conn.registry (· ∈ names) := by
  induction names generalizing s with
  | nil => exact (Pruned.refl _).congr fun _ => ⟨False.elim, List.not_mem_nil⟩
  | cons name names ih =>
    exact ((releaseOne_pruned s name).trans (ih _)).congr fun _ => List.mem_cons.symm

theorem next_release (s : Scene) (name : String) : (s.release name).conn.registry.next = s.conn.registry.next :=
  (releaseAllOf_pruned s _).next

theorem release_pruned (valid : s.conn.registry.Valid id) (name : String) :
    Pruned s.conn.registry (s.release name).conn.registry (s.conn.registry.Under name) :=
  (releaseAllOf_pruned s _).congr fun _ => valid.mem_releaseOrder

theorem release_valid (valid : s.conn.registry.Valid id) (name : String) : (s.release name).conn.registry.Valid id :=
  valid.prune (release_pruned valid name) fun e member _ owned under =>
    .tail under (Registry.owns_iff.mpr ⟨e, member, rfl, owned⟩)

end Scene

end RemoteInspector
