import Mathlib.Data.List.Nodup
import RemoteInspector.Proofs.Registry.Names
/-!
The order in a registry: an owner stands above what it owns, and chains of owners end at the root.
-/
namespace RemoteInspector

namespace Actor

/-- How far from the root actors of a kind stand in the tree of owners. -/
def rank : Actor → Nat
  | root _ => 0
  | tab _ => 1
  | inspector _ | console _ | thread _ | trace _ => 2
  | walker _ | network _ | frame _ => 3
  | node _ | nodeList _ => 4
  | longString _ | object _ => 5

/-- The actors that an actor keeps in mind in order to release them. -/
def mentions : Actor → List String
  | root actor => actor.tabs.values
  | console actor => actor.requests.values
  | thread actor => actor.frames
  | _ => []

/-- An actor that has changed in nothing the registry depends on. -/
structure Alike (a b : Actor) : Prop where
  rank : b.rank = a.rank
  object : b.object? = a.object?
  mentions : b.mentions ⊆ a.mentions

namespace Alike

variable {a b c : Actor}

theorem refl (a : Actor) : Alike a a := ⟨rfl, rfl, List.Subset.refl _⟩

theorem trans (first : Alike a b) (next : Alike b c) : Alike a c :=
  ⟨next.rank.trans first.rank, next.object.trans first.object, List.Subset.trans next.mentions first.mentions⟩

end Alike

end Actor

namespace Registry

variable {name : String} {rank : Nat} {e : Entry} {f : Actor → Actor}

def names (r : Registry) : List String := r.entries.map (·.name)

def Has (r : Registry) (name : String) (rank : Nat) : Prop :=
  ∃ e ∈ r.entries, e.name = name ∧ e.actor.rank = rank

/-- Names are given once, every actor but the root ranks above its owner, which is there, and the objects are indexed. -/
structure Valid (id : ConnectionId) (r : Registry) : Prop where
  nodup : r.names.Nodup
  root : ∀ e ∈ r.entries, e.owner = none → e.name = "root" ∧ e.actor.rank = 0
  owned : ∀ e ∈ r.entries, ∀ owner, e.owner = some owner →
    Named id 0 r.next e.name ∧ ∃ rank, rank < e.actor.rank ∧ r.Has owner rank
  scripts : ∀ p ∈ r.scripts, ∃ e ∈ r.entries, e.name = p.2 ∧
    ∃ actor, e.actor.object? = some actor ∧ actor.object.id = p.1
  objects : ∀ e ∈ r.entries, ∀ actor, e.actor.object? = some actor → e.owner = some actor.owner
  /-- An actor keeps only actors in mind that stand below it, or that are gone for good. -/
  mentions : ∀ e ∈ r.entries, ∀ name ∈ e.actor.mentions,
    Named id 0 r.next name ∧ ∀ rank, r.Has name rank → e.actor.rank < rank

variable {id : ConnectionId} {r r' : Registry}

theorem contains_iff : r.contains name = true ↔ name ∈ r.names := by
  simp [contains, names]

theorem Has.mem_names (has : r.Has name rank) : name ∈ r.names := by
  obtain ⟨e, member, rfl, _⟩ := has
  exact List.mem_map_of_mem member

theorem find?_eq_none : r.find? name = none ↔ name ∉ r.names := by
  simp [find?, names]

theorem entry_of_find? {actor : Actor} (found : r.find? name = some actor) :
    ∃ e ∈ r.entries, e.name = name ∧ e.actor = actor := by
  obtain ⟨e, found, same⟩ := Option.map_eq_some_iff.mp found
  have named : e.name = name := by simpa using List.find?_some found
  exact ⟨e, List.mem_of_find?_eq_some found, named, same⟩

theorem has_of_find? {actor : Actor} (found : r.find? name = some actor) : r.Has name actor.rank := by
  obtain ⟨e, member, named, rfl⟩ := entry_of_find? found
  exact ⟨e, member, named, rfl⟩

theorem Valid.empty (id : ConnectionId) : Valid id {} where
  nodup := .nil
  root _ member := nomatch member
  owned _ member := nomatch member
  scripts _ member := nomatch member
  objects _ member := nomatch member
  mentions _ member := nomatch member

namespace Valid

variable {e : Entry} {name : String}

section

variable (valid : r.Valid id)

include valid

theorem entry_unique {e' : Entry} (member : e ∈ r.entries) (member' : e' ∈ r.entries) (same : e.name = e'.name) :
    e = e' :=
  List.inj_on_of_nodup_map valid.nodup member member' same

theorem actor_of_find? {actor : Actor} (found : r.find? name = some actor) (member : e ∈ r.entries)
    (named : e.name = name) : e.actor = actor := by
  obtain ⟨e', member', named', same⟩ := entry_of_find? found
  rw [valid.entry_unique member member' (named.trans named'.symm), same]

theorem update_eq_self {actor : Actor} (found : r.find? name = some actor) {f : Actor → Actor}
    (same : f actor = actor) : r.update name f = r := by
  have entries : r.entries.map (fun e => if e.name = name then { e with actor := f e.actor } else e) = r.entries := by
    refine (List.map_congr_left fun e member => ?_).trans (List.map_id _)
    split
    · rename_i here
      rw [valid.actor_of_find? found member here, same, ← valid.actor_of_find? found member here]
      rfl
    · rfl
  rw [update, entries]

theorem find?_name (member : e ∈ r.entries) : r.find? e.name = some e.actor := by
  cases found : r.find? e.name with
  | none => exact absurd (List.mem_map_of_mem member) (find?_eq_none.mp found)
  | some actor => rw [valid.actor_of_find? found member rfl]

theorem has_unique {rank rank' : Nat} (has : r.Has name rank) (has' : r.Has name rank') : rank = rank' := by
  obtain ⟨e, member, named, rfl⟩ := has
  obtain ⟨e', member', named', rfl⟩ := has'
  rw [valid.entry_unique member member' (named.trans named'.symm)]

theorem name_given (member : name ∈ r.names) : name = "root" ∨ Named id 0 r.next name := by
  obtain ⟨e, listed, rfl⟩ := List.mem_map.mp member
  cases owner : e.owner with
  | none => exact .inl (valid.root e listed owner).1
  | some owner' => exact .inr (valid.owned e listed owner' owner).1

end

end Valid

/-! ### Looking up after a change -/

def entryOf? (r : Registry) (name : String) : Option Entry := r.entries.find? (·.name = name)

theorem find?_eq_entryOf? (r : Registry) (name : String) : r.find? name = (r.entryOf? name).map (·.actor) := rfl

theorem mem_of_entryOf? (found : r.entryOf? name = some e) : e ∈ r.entries ∧ e.name = name :=
  ⟨List.mem_of_find?_eq_some found, by simpa using List.find?_some found⟩

theorem Valid.entryOf?_of_mem (valid : r.Valid id) (member : e ∈ r.entries) : r.entryOf? e.name = some e := by
  cases found : r.entryOf? e.name with
  | none => simpa using List.find?_eq_none.mp found e member
  | some e' =>
    obtain ⟨member', named⟩ := mem_of_entryOf? found
    rw [valid.entry_unique member' member named]

theorem entryOf?_add (r : Registry) (e : Entry) (name : String) :
    (r.add e).entryOf? name = (r.entryOf? name).or (if e.name = name then some e else none) := by
  unfold entryOf? add
  rw [List.find?_append]
  by_cases same : e.name = name <;> simp [same]

theorem entryOf?_update (r : Registry) (name other : String) (f : Actor → Actor) :
    (r.update name f).entryOf? other =
      (r.entryOf? other).map fun e => if other = name then { e with actor := f e.actor } else e := by
  simp only [entryOf?, update, List.find?_map]
  have names : ((fun e : Entry => decide (e.name = other)) ∘
      fun e => if e.name = name then { e with actor := f e.actor } else e) =
        fun e => decide (e.name = other) := by
    funext e
    by_cases same : e.name = name <;> simp [same]
  rw [names]
  cases found : r.entries.find? (·.name = other) with
  | none => rfl
  | some e =>
    have named : e.name = other := by simpa using List.find?_some found
    rw [Option.map_some, Option.map_some, named]

theorem entryOf?_remove (r : Registry) (name other : String) :
    (r.remove name).entryOf? other = if other = name then none else r.entryOf? other := by
  simp only [entryOf?, remove, List.find?_filter]
  by_cases same : other = name
  · subst same
    simp
  · rw [if_neg same]
    congr 1
    funext e
    by_cases named : e.name = other <;> simp [named, same]

theorem find?_add (r : Registry) (e : Entry) (name : String) :
    (r.add e).find? name = (r.find? name).or (if e.name = name then some e.actor else none) := by
  rw [find?_eq_entryOf?, find?_eq_entryOf?, entryOf?_add]
  cases r.entryOf? name with
  | some found => rfl
  | none => by_cases same : e.name = name <;> simp [same]

theorem find?_update (r : Registry) (name other : String) (f : Actor → Actor) :
    (r.update name f).find? other = (r.find? other).map fun a => if other = name then f a else a := by
  rw [find?_eq_entryOf?, find?_eq_entryOf?, entryOf?_update, Option.map_map, Option.map_map]
  congr 1
  funext e
  by_cases same : other = name <;> simp [same]

theorem find?_remove (r : Registry) (name other : String) :
    (r.remove name).find? other = if other = name then none else r.find? other := by
  rw [find?_eq_entryOf?, find?_eq_entryOf?, entryOf?_remove]
  split <;> rfl

/-! ### Adding -/

/-- Entries that may be added: under new names, each below an owner that is there or comes along. -/
structure Addable (id : ConnectionId) (r : Registry) (added : List Entry) (next : Nat) : Prop where
  nodup : (added.map (·.name)).Nodup
  named : ∀ e ∈ added, Named id r.next next e.name
  owned : ∀ e ∈ added, ∃ owner rank, e.owner = some owner ∧ rank < e.actor.rank ∧
    (r.Has owner rank ∨ ∃ o ∈ added, o.name = owner ∧ o.actor.rank = rank)
  objects : ∀ e ∈ added, ∀ actor, e.actor.object? = some actor → e.owner = some actor.owner
  mentions : ∀ e ∈ added, e.actor.mentions = []

def extend (r : Registry) (added : List Entry) (scripts : Table ObjectId String) (next : Nat) : Registry :=
  { entries := r.entries ++ added, scripts := scripts, next := next }

variable {added : List Entry} {scripts : Table ObjectId String} {next : Nat}

theorem entryOf?_extend (name : String) :
    (r.extend added scripts next).entryOf? name = (r.entryOf? name).or (added.find? (·.name = name)) := List.find?_append

theorem find?_extend (name : String) : (r.extend added scripts next).find? name =
    (r.find? name).or ((added.find? (·.name = name)).map (·.actor)) := by
  rw [find?_eq_entryOf?, entryOf?_extend, Option.map_or, find?_eq_entryOf?]

theorem names_extend : (r.extend added scripts next).names = r.names ++ added.map (·.name) :=
  List.map_append

theorem has_extend : (r.extend added scripts next).Has name rank ↔
    r.Has name rank ∨ ∃ e ∈ added, e.name = name ∧ e.actor.rank = rank := by
  simp only [Has, extend, List.mem_append, or_and_right, exists_or]

theorem Valid.extend (valid : r.Valid id) (later : r.next ≤ next) (few : next ≤ UInt32.size)
    (addable : Addable id r added next)
    (known : ∀ p ∈ scripts, p ∈ r.scripts ∨ ∃ e ∈ added, e.name = p.2 ∧
      ∃ actor, e.actor.object? = some actor ∧ actor.object.id = p.1) : (r.extend added scripts next).Valid id where
  nodup := by
    rw [names_extend, List.nodup_append]
    refine ⟨valid.nodup, addable.nodup, fun name old name' new same => ?_⟩
    obtain ⟨e, member, rfl⟩ := List.mem_map.mp new
    have given := addable.named e member
    rcases valid.name_given old with root | early
    · exact given.ne_root (same.symm.trans root)
    · exact (same ▸ early).disjoint given (Nat.le_refl _) few
  root e member := by
    rcases List.mem_append.mp member with member | member
    · exact valid.root e member
    · intro unowned
      obtain ⟨owner, _, owned, _⟩ := addable.owned e member
      rw [unowned] at owned
      cases owned
  owned e member owner owned := by
    rcases List.mem_append.mp member with member | member
    · obtain ⟨named, rank, above, has⟩ := valid.owned e member owner owned
      exact ⟨named.widen (Nat.le_refl _) later, rank, above, has_extend.mpr (.inl has)⟩
    · obtain ⟨owner', rank, owned', above, has⟩ := addable.owned e member
      cases owned.symm.trans owned'
      exact ⟨(addable.named e member).widen (Nat.zero_le _) (Nat.le_refl _), rank, above, has_extend.mpr has⟩
  scripts p member := by
    rcases known p member with old | ⟨e, member, object⟩
    · obtain ⟨e, member, object⟩ := valid.scripts p old
      exact ⟨e, List.mem_append_left _ member, object⟩
    · exact ⟨e, List.mem_append_right _ member, object⟩
  objects e member := by
    rcases List.mem_append.mp member with member | member
    · exact valid.objects e member
    · exact addable.objects e member
  mentions e member name mentioned := by
    rcases List.mem_append.mp member with member | member
    · obtain ⟨named, below⟩ := valid.mentions e member name mentioned
      refine ⟨named.widen (Nat.le_refl _) later, fun rank has => ?_⟩
      rcases has_extend.mp has with old | ⟨e', member', same, _⟩
      · exact below rank old
      · exact (named.disjoint (same ▸ addable.named e' member') (Nat.le_refl _) few).elim
    · rw [addable.mentions e member] at mentioned
      cases mentioned

/-! ### Changing -/

theorem names_update (name : String) (f : Actor → Actor) : (r.update name f).names = r.names := by
  simp only [names, update, List.map_map]
  refine List.map_congr_left fun e _ => ?_
  by_cases same : e.name = name <;> simp [same]

/-- An entry of an updated registry comes from one of the same name and owner. -/
theorem mem_update :
    e ∈ (r.update name f).entries ↔
      (e ∈ r.entries ∧ e.name ≠ name) ∨ ∃ old ∈ r.entries, old.name = name ∧ e = { old with actor := f old.actor } := by
  simp only [update, List.mem_map]
  constructor
  · rintro ⟨old, member, rfl⟩
    by_cases same : old.name = name
    · exact .inr ⟨old, member, same, by simp [same]⟩
    · exact .inl (by simp [same, member])
  · rintro (⟨member, other⟩ | ⟨old, member, same, rfl⟩)
    · exact ⟨e, member, by simp [other]⟩
    · exact ⟨old, member, by simp [same]⟩

theorem has_update {other : String} (same : ∀ e ∈ r.entries, e.name = name → (f e.actor).rank = e.actor.rank) :
    (r.update name f).Has other rank ↔ r.Has other rank := by
  constructor
  · rintro ⟨e, member, named, rfl⟩
    rcases mem_update.mp member with ⟨listed, _⟩ | ⟨old, listed, old_name, rfl⟩
    · exact ⟨e, listed, named, rfl⟩
    · exact ⟨old, listed, named, (same old listed old_name).symm⟩
  · rintro ⟨e, member, named, rfl⟩
    by_cases updated : e.name = name
    · exact ⟨_, mem_update.mpr (.inr ⟨e, member, updated, rfl⟩), named, same e member updated⟩
    · exact ⟨e, mem_update.mpr (.inl ⟨member, updated⟩), named, rfl⟩

/-- An actor may change what it keeps, and what it keeps in mind as long as that is below it. -/
theorem Valid.update (valid : r.Valid id) (rank : ∀ e ∈ r.entries, e.name = name → (f e.actor).rank = e.actor.rank)
    (object : ∀ e ∈ r.entries, e.name = name → (f e.actor).object? = e.actor.object?)
    (minds : ∀ e ∈ r.entries, e.name = name → ∀ n ∈ (f e.actor).mentions,
      Named id 0 r.next n ∧ ∀ rank, r.Has n rank → e.actor.rank < rank) : (r.update name f).Valid id where
  nodup := names_update (r := r) name f ▸ valid.nodup
  root e member unowned := by
    rcases mem_update.mp member with ⟨listed, _⟩ | ⟨old, listed, same, rfl⟩
    · exact valid.root e listed unowned
    · exact ⟨(valid.root old listed unowned).1, (rank old listed same).trans (valid.root old listed unowned).2⟩
  owned e member owner owned := by
    rcases mem_update.mp member with ⟨listed, _⟩ | ⟨old, listed, same, rfl⟩
    · obtain ⟨named, k, above, has⟩ := valid.owned e listed owner owned
      exact ⟨named, k, above, (has_update rank).mpr has⟩
    · obtain ⟨named, k, above, has⟩ := valid.owned old listed owner owned
      exact ⟨named, k, (rank old listed same).symm ▸ above, (has_update rank).mpr has⟩
  scripts p member := by
    obtain ⟨e, member, named, actor, found, number⟩ := valid.scripts p member
    by_cases updated : e.name = name
    · exact ⟨_, mem_update.mpr (.inr ⟨e, member, updated, rfl⟩), named, actor,
        (object e member updated).trans found, number⟩
    · exact ⟨e, mem_update.mpr (.inl ⟨member, updated⟩), named, actor, found, number⟩
  objects e member actor found := by
    rcases mem_update.mp member with ⟨listed, _⟩ | ⟨old, listed, same, rfl⟩
    · exact valid.objects e listed actor found
    · exact valid.objects old listed actor ((object old listed same).symm.trans found)
  mentions e member n mentioned := by
    rcases mem_update.mp member with ⟨listed, _⟩ | ⟨old, listed, same, rfl⟩
    · obtain ⟨named, below⟩ := valid.mentions e listed n mentioned
      exact ⟨named, fun k has => below k ((has_update rank).mp has)⟩
    · obtain ⟨named, below⟩ := minds old listed same n mentioned
      exact ⟨named, fun k has =>
        (rank old listed same).symm ▸ below k ((has_update rank).mp has)⟩

theorem Valid.update_alike (valid : r.Valid id) (alike : ∀ e ∈ r.entries, e.name = name → e.actor.Alike (f e.actor)) :
    (r.update name f).Valid id :=
  valid.update (fun e listed same => (alike e listed same).rank)
    (fun e listed same => (alike e listed same).object)
    fun e listed same n mentioned => valid.mentions e listed n ((alike e listed same).mentions mentioned)

end Registry

end RemoteInspector
