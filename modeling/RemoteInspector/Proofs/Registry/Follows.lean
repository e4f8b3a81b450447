import RemoteInspector.Proofs.Registry.Release
/-!
What a step may do to a registry: it gives only new names, and touches no actor above a certain rank.
-/
namespace RemoteInspector

namespace Registry

/-- Only actors of rank `k` or more have come or gone, and what has come has a new name. -/
structure Follows (id : ConnectionId) (k : Nat) (r r' : Registry) : Prop where
  valid : r'.Valid id
  fresh : ∀ name ∈ r'.names, name ∈ r.names ∨ Named id r.next r'.next name
  high : ∀ name rank, rank < k → (r'.Has name rank ↔ r.Has name rank)

def Above (r : Registry) (k : Nat) (name : String) : Prop := ∃ rank, rank < k ∧ r.Has name rank

def Stable (k : Nat) (P : Registry → Prop) : Prop :=
  ∀ r r' : Registry, (∀ name rank, rank < k → (r'.Has name rank ↔ r.Has name rank)) → P r → P r'

theorem stable_true (k : Nat) : Stable k (fun _ => True) := fun _ _ _ _ => trivial

theorem stable_above (k : Nat) (name : String) : Stable k (fun r => r.Above k name) := by
  rintro r r' same ⟨rank, above, has⟩
  exact ⟨rank, above, (same name rank above).mpr has⟩

theorem stable_not_above (k : Nat) (name : String) : Stable k (fun r => ¬ r.Above k name) := by
  rintro r r' same absent ⟨rank, above, has⟩
  exact absent ⟨rank, above, (same name rank above).mp has⟩

theorem Stable.and {k : Nat} {P Q : Registry → Prop} (first : Stable k P) (second : Stable k Q) :
    Stable k (fun r => P r ∧ Q r) :=
  fun r r' same holds => ⟨first r r' same holds.1, second r r' same holds.2⟩

theorem Stable.forall_mem {α : Type} {k : Nat} {P : α → Registry → Prop} {items : List α}
    (each : ∀ a, Stable k (P a)) : Stable k (fun r => ∀ a ∈ items, P a r) :=
  fun r r' same holds a member => each a r r' same (holds a member)

variable {id : ConnectionId} {k : Nat} {r r' : Registry}

theorem Valid.not_above (valid : r.Valid id) {name : String} {rank : Nat} (has : r.Has name rank)
    (low : k ≤ rank) : ¬ r.Above k name := by
  rintro ⟨top, above, has_top⟩
  rw [valid.has_unique has_top has] at above
  exact absurd low (Nat.not_le_of_lt above)

namespace Follows

theorem refl (valid : r.Valid id) : Follows id k r r :=
  ⟨valid, fun _ => .inl, fun _ _ _ => Iff.rfl⟩

theorem trans {r'' : Registry} (first : Follows id k r r') (next : Follows id k r' r'')
    (later : r.next ≤ r'.next) (later' : r'.next ≤ r''.next) : Follows id k r r'' where
  valid := next.valid
  fresh name member := by
    rcases next.fresh name member with member | named
    · exact (first.fresh name member).imp_right fun named => named.widen (Nat.le_refl _) later'
    · exact .inr (named.widen later (Nat.le_refl _))
  high name rank above := (next.high name rank above).trans (first.high name rank above)

theorem mono (follows : Follows id k r r') {j : Nat} (le : j ≤ k) : Follows id j r r' :=
  ⟨follows.valid, follows.fresh, fun name rank above =>
    follows.high name rank (Nat.lt_of_lt_of_le above le)⟩

theorem extend (valid : r.Valid id) {added : List Entry} {scripts : Table ObjectId String} {next : Nat}
    (later : r.next ≤ next) (few : next ≤ UInt32.size) (addable : Addable id r added next)
    (low : ∀ e ∈ added, k ≤ e.actor.rank)
    (known : ∀ p ∈ scripts, p ∈ r.scripts ∨ ∃ e ∈ added, e.name = p.2 ∧
      ∃ actor, e.actor.object? = some actor ∧ actor.object.id = p.1) :
    Follows id k r (r.extend added scripts next) where
  valid := valid.extend later few addable known
  fresh name member := by
    rw [names_extend, List.mem_append] at member
    refine member.imp_right fun new => ?_
    obtain ⟨e, listed, rfl⟩ := List.mem_map.mp new
    exact addable.named e listed
  high name rank above := by
    rw [has_extend]
    refine or_iff_left ?_
    rintro ⟨e, member, _, rfl⟩
    exact absurd (low e member) (Nat.not_le_of_lt above)

theorem update {name : String} {f : Actor → Actor} (valid : (r.update name f).Valid id)
    (rank : ∀ e ∈ r.entries, e.name = name → (f e.actor).rank = e.actor.rank) : Follows id k r (r.update name f) :=
  ⟨valid, fun _ member => .inl (names_update (r := r) name f ▸ member), fun _ _ _ => has_update rank⟩

end Follows

theorem Valid.above_of_under (valid : r.Valid id) {owner name : String} {rank : Nat}
    (under : r.Under owner name) (has : r.Has name rank) : ∃ top, top ≤ rank ∧ r.Has owner top := by
  rcases Relation.ReflTransGen.cases_head under with rfl | ⟨child, owns, _⟩
  · exact ⟨rank, Nat.le_refl _, has⟩
  · obtain ⟨e, member, _, owned⟩ := owns_iff.mp owns
    obtain ⟨_, top, _, has_top⟩ := valid.owned e member owner owned
    obtain ⟨rank', has', le⟩ := valid.rank_le under has_top
    exact ⟨top, valid.has_unique has' has ▸ le, has_top⟩

end Registry

end RemoteInspector
