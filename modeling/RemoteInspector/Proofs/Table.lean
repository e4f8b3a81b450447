import RemoteInspector.Table
/-!
Reading a table after it was written to.
-/
namespace RemoteInspector

namespace Table

variable {κ α : Type} [DecidableEq κ] {t : Table κ α} {key : κ} {v : α}

theorem get?_insertBy (lt : κ → κ → Bool) (t : Table κ α) (key other : κ) (v : α) :
    (t.insertBy lt key v).get? other = if key = other then some v else t.get? other := by
  induction t with
  | nil => simp [insertBy, get?]
  | cons entry t ih =>
    obtain ⟨k, w⟩ := entry
    by_cases same : k = key
    · subst same
      by_cases h : k = other <;> simp [insertBy, get?, h]
    · by_cases before : lt key k
      · simp only [insertBy, if_neg same, if_pos before, get?]
      · simp only [insertBy, if_neg same, if_neg before, get?, ih]
        by_cases h : k = other
        · subst h
          simp [Ne.symm same]
        · simp [h]

theorem mem_insertBy {lt : κ → κ → Bool} {p : κ × α} (member : p ∈ t.insertBy lt key v) : p ∈ t ∨ p = (key, v) := by
  induction t with
  | nil => exact .inr (List.mem_singleton.mp member)
  | cons entry t ih =>
    obtain ⟨k, w⟩ := entry
    by_cases same : k = key
    · simp only [insertBy, if_pos same, List.mem_cons] at member
      exact member.elim (fun new => .inr (same ▸ new)) fun old => .inl (List.mem_cons_of_mem _ old)
    · by_cases before : lt key k
      · simp only [insertBy, if_neg same, if_pos before] at member
        exact (List.mem_cons.mp member).elim .inr .inl
      · simp only [insertBy, if_neg same, if_neg before, List.mem_cons] at member
        rcases member with rfl | later
        · exact .inl List.mem_cons_self
        · exact (ih later).imp_left (List.mem_cons_of_mem _)

theorem insert_eq_insertBy (t : Table κ α) (key : κ) (v : α) : t.insert key v = t.insertBy (fun _ _ => false) key v := by
  induction t with
  | nil => rfl
  | cons entry t ih => simp [insert, insertBy, ih]

theorem mem_insert {p : κ × α} (member : p ∈ t.insert key v) : p ∈ t ∨ p = (key, v) :=
  mem_insertBy (insert_eq_insertBy t key v ▸ member)

theorem sorted_insertBy {t : Table Nat α} (sorted : t.keys.Pairwise (· < ·)) (key : Nat) (v : α) :
    (t.insertBy (fun a b => decide (a < b)) key v).keys.Pairwise (· < ·) := by
  induction t with
  | nil => exact List.pairwise_singleton _ _
  | cons p rest ih =>
    obtain ⟨k, w⟩ := p
    obtain ⟨least, sorted⟩ := List.pairwise_cons.mp sorted
    by_cases same : k = key
    · simp only [insertBy, if_pos same]
      exact List.pairwise_cons.mpr ⟨least, sorted⟩
    · by_cases before : key < k
      · simp only [insertBy, if_neg same, decide_eq_true before, if_true]
        refine List.pairwise_cons.mpr ⟨fun x member => ?_, List.pairwise_cons.mpr ⟨least, sorted⟩⟩
        rcases List.mem_cons.mp member with rfl | later
        · exact before
        · exact Nat.lt_trans before (least x later)
      · simp only [insertBy, if_neg same, decide_eq_false before, Bool.false_eq_true, if_false]
        refine List.pairwise_cons.mpr ⟨fun x member => ?_, ih sorted⟩
        obtain ⟨p, inserted, rfl⟩ := List.mem_map.mp member
        rcases mem_insertBy inserted with old | rfl
        · exact least p.1 (List.mem_map_of_mem old)
        · exact Nat.lt_of_le_of_ne (Nat.le_of_not_lt before) same

theorem mem_of_get? (found : t.get? key = some v) : (key, v) ∈ t := by
  induction t with
  | nil => cases found
  | cons entry t ih =>
    obtain ⟨k, w⟩ := entry
    by_cases same : k = key
    · simp only [get?, if_pos same, Option.some.injEq] at found
      rw [same, found]
      exact List.mem_cons_self
    · simp only [get?, if_neg same] at found
      exact List.mem_cons_of_mem _ (ih found)

theorem mem_values_of_get? (found : t.get? key = some v) : v ∈ t.values :=
  List.mem_map_of_mem (mem_of_get? found)

theorem mem_keys_iff : key ∈ t.keys ↔ ∃ v, t.get? key = some v := by
  refine ⟨fun listed => ?_, fun ⟨v, found⟩ => List.mem_map_of_mem (mem_of_get? found)⟩
  induction t with
  | nil => cases listed
  | cons entry t ih =>
    obtain ⟨k, w⟩ := entry
    by_cases same : k = key
    · exact ⟨w, if_pos same⟩
    · have later : key ∈ keys t := (List.mem_cons.mp listed).resolve_left (Ne.symm same)
      simpa only [get?, if_neg same] using ih later

theorem get?_eq_some_iff (nodup : t.keys.Nodup) : t.get? key = some v ↔ (key, v) ∈ t := by
  refine ⟨mem_of_get?, fun member => ?_⟩
  induction t with
  | nil => cases member
  | cons entry t ih =>
    obtain ⟨k, w⟩ := entry
    obtain ⟨new, rest⟩ := List.nodup_cons.mp nodup
    rcases List.mem_cons.mp member with same | later
    · cases same
      exact if_pos rfl
    · have listed : key ∈ keys t := List.mem_map_of_mem (f := Prod.fst) later
      have other : k ≠ key := fun same => new (same ▸ listed)
      simpa only [get?, if_neg other] using ih rest later

theorem get?_insert (t : Table κ α) (key other : κ) (v : α) :
    (t.insert key v).get? other = if key = other then some v else t.get? other := by
  rw [insert_eq_insertBy, get?_insertBy]

theorem nodup_keys_insert (nodup : t.keys.Nodup) (key : κ) (v : α) : (t.insert key v).keys.Nodup := by
  have keys : (t.insert key v).keys = if key ∈ t.keys then t.keys else t.keys ++ [key] := by
    clear nodup
    induction t with
    | nil => rfl
    | cons p rest ih =>
      unfold insert
      split
      · rename_i same
        simp [keys, same]
      · rename_i other
        simp only [keys, List.map_cons] at ih ⊢
        rw [ih]
        by_cases listed : key ∈ rest.map Prod.fst <;> simp [listed, Ne.symm other]
  rw [keys]
  split
  · exact nodup
  · rename_i new
    refine List.pairwise_append.mpr ⟨nodup, List.pairwise_singleton _ _, fun other listed last single => ?_⟩
    rintro rfl
    exact new (List.mem_singleton.mp single ▸ listed)

theorem contains_iff_mem : t.contains key ↔ key ∈ t.keys := by
  rw [mem_keys_iff, contains, Option.isSome_iff_exists]

theorem get?_erase (t : Table κ α) (key other : κ) :
    (t.erase key).get? other = if key = other then none else t.get? other := by
  induction t with
  | nil => simp [erase, get?]
  | cons entry t ih =>
    obtain ⟨k, w⟩ := entry
    unfold erase at ih ⊢
    by_cases same : k = key
    · subst same
      by_cases h : k = other <;> simp_all [get?]
    · by_cases h : k = other
      · subst h
        simp [same, Ne.symm same, get?]
      · simp_all [get?]

theorem keys_erase (t : Table κ α) (key : κ) : (t.erase key).keys = t.keys.filter (· ≠ key) := by
  rw [keys, keys, List.filter_map]
  rfl

theorem nodup_keys_erase (nodup : t.keys.Nodup) (key : κ) : (t.erase key).keys.Nodup :=
  (List.filter_sublist.map _).nodup nodup

theorem length_erase (nodup : t.keys.Nodup) (key : κ) :
    (t.erase key).length = if t.contains key then t.length - 1 else t.length := by
  have lengths (t : Table κ α) : t.length = t.keys.length := (List.length_map _).symm
  have erased : (t.erase key).keys = t.keys.erase key := by
    rw [keys_erase, nodup.erase_eq_filter]
    refine List.filter_congr fun k _ => ?_
    rw [decide_not]
    rfl
  rw [lengths, erased, List.length_erase, ← lengths]
  by_cases there : t.contains key
  · rw [if_pos there, if_pos (contains_iff_mem.mp there)]
  · rw [if_neg there, if_neg (mt contains_iff_mem.mpr there)]

theorem get?_filter_ne [DecidableEq α] {gone : α} (found : t.get? key = some v)
    (kept : v ≠ gone) : Table.get? (t.filter (·.2 ≠ gone)) key = some v := by
  induction t with
  | nil => cases found
  | cons p rest ih =>
    obtain ⟨k, v'⟩ := p
    simp only [get?] at found
    by_cases same : k = key
    · rw [if_pos same] at found
      cases found
      simp [kept, get?, same]
    · rw [if_neg same] at found
      by_cases out : v' = gone
      · simpa [out] using ih found
      · simpa [out, get?, same] using ih found

theorem get?_filter_ne_iff [DecidableEq α] (nodup : t.keys.Nodup) {gone : α} :
    Table.get? (t.filter (·.2 ≠ gone)) key = some v ↔ t.get? key = some v ∧ v ≠ gone := by
  have keys : (Table.keys (t.filter (·.2 ≠ gone))).Nodup := (List.filter_sublist.map _).nodup nodup
  rw [get?_eq_some_iff keys, get?_eq_some_iff nodup, List.mem_filter]
  simp

theorem get?_map {β : Type} (t : Table κ α) (f : α → β) (key : κ) :
    get? (t.map fun p => (p.1, f p.2)) key = (t.get? key).map f := by
  induction t with
  | nil => rfl
  | cons p rest ih =>
    simp only [List.map_cons, get?]
    split
    · rfl
    · exact ih

theorem get?_modify (t : Table κ α) (key other : κ) (f : α → α) :
    (t.modify key f).get? other = if key = other then (t.get? other).map f else t.get? other := by
  induction t with
  | nil => simp [modify, get?]
  | cons entry t ih =>
    obtain ⟨k, w⟩ := entry
    by_cases same : k = key
    · subst same
      by_cases h : k = other <;> simp [modify, get?, h]
    · simp only [modify, if_neg same, get?, ih]
      by_cases h : k = other
      · subst h
        simp [Ne.symm same]
      · simp [h]

theorem modify_modify (t : Table κ α) (key : κ) (f g : α → α) :
    (t.modify key f).modify key g = t.modify key (g ∘ f) := by
  induction t with
  | nil => rfl
  | cons entry t ih =>
    obtain ⟨k, w⟩ := entry
    by_cases same : k = key <;> simp [modify, same, ih]

@[simp] theorem keys_modify (t : Table κ α) (key : κ) (f : α → α) : (t.modify key f).keys = t.keys := by
  induction t with
  | nil => rfl
  | cons entry t ih =>
    obtain ⟨k, w⟩ := entry
    by_cases same : k = key
    · simp [modify, same, keys]
    · simpa [modify, same, keys] using ih

@[simp] theorem length_modify (t : Table κ α) (key : κ) (f : α → α) : (t.modify key f).length = t.length := by
  have keys := congrArg List.length (keys_modify t key f)
  simpa only [Table.keys, List.length_map] using keys

end Table

end RemoteInspector
