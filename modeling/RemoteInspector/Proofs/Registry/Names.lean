import RemoteInspector.Registry
/-!
Names of actors: a name tells the number it was given under, as long as 32 bits can count them.
-/
namespace RemoteInspector.Registry

variable {kind : String}

/-- The kinds of actors that get a number. None has a digit in it. -/
def kinds : List String :=
  ["tab", "inspector", "trace", "thread", "console", "domwalker", "domnode", "domnodelist",
    "longString", "obj", "netEvent", "frame"]

theorem isDigit_of_mem_toString {n : Nat} {c : Char} (member : c ∈ (toString n).toList) : c.isDigit := by
  rw [Nat.toString_eq_ofList_toDigits, String.toList_ofList] at member
  exact Nat.isDigit_of_mem_toDigits (b := 10) (by decide) (by decide) member

theorem dropWhile_kind (listed : kind ∈ kinds) (n : Nat) :
    (kind.toList ++ (toString n).toList).dropWhile (fun c => !c.isDigit) = (toString n).toList := by
  have plain : kinds.all (fun k => k.toList.all fun c => !c.isDigit) = true := by decide
  rw [List.dropWhile_append_of_pos (List.all_eq_true.mp (List.all_eq_true.mp plain kind listed))]
  cases digits : (toString n).toList with
  | nil => rfl
  | cons c rest =>
    have digit : c.isDigit := isDigit_of_mem_toString (digits ▸ List.mem_cons_self)
    simp [digit]

theorem nameOf_injective {id : ConnectionId} {kind' : String} {m n : Nat} (listed : kind ∈ kinds)
    (listed' : kind' ∈ kinds) (small : m < UInt32.size) (small' : n < UInt32.size)
    (same : nameOf id kind m = nameOf id kind' n) : m = n := by
  have characters := congrArg String.toList same
  simp only [nameOf, String.toList_append, List.append_assoc, List.append_cancel_left_eq,
    Nat.mod_eq_of_lt small, Nat.mod_eq_of_lt small'] at characters
  have numbers : (toString m).toList = (toString n).toList := by
    rw [← dropWhile_kind listed m, ← dropWhile_kind listed' n, characters]
  have read := congrArg (fun digits => Nat.ofDigitChars 10 digits 0) numbers
  simpa [Nat.toString_eq_ofList_toDigits] using read

/-- One of the names given under the numbers from `first` on, before `last`. -/
def Named (id : ConnectionId) (first last : Nat) (name : String) : Prop :=
  ∃ kind ∈ kinds, ∃ n, first ≤ n ∧ n < last ∧ name = nameOf id kind n

namespace Named

variable {id : ConnectionId} {first last first' last' : Nat} {name : String}

theorem widen (named : Named id first last name) (below : first' ≤ first) (above : last ≤ last') :
    Named id first' last' name := by
  obtain ⟨kind, listed, n, lower, upper, same⟩ := named
  exact ⟨kind, listed, n, Nat.le_trans below lower, Nat.lt_of_lt_of_le upper above, same⟩

theorem disjoint (early : Named id first last name) (late : Named id first' last' name)
    (apart : last ≤ first') (few : last' ≤ UInt32.size) : False := by
  obtain ⟨kind, listed, n, _, upper, same⟩ := early
  obtain ⟨kind', listed', n', lower', upper', same'⟩ := late
  have equal : n = n' :=
    nameOf_injective listed listed' (by omega) (by omega) (same.symm.trans same')
  omega

theorem ne_root (named : Named id first last name) : name ≠ "root" := by
  obtain ⟨kind, _, n, _, _, rfl⟩ := named
  intro same
  have characters := congrArg (List.head? ∘ String.toList) same
  simp [nameOf] at characters

end Named

theorem newName_named (listed : kind ∈ kinds) (r : Registry) (id : ConnectionId) :
    Named id r.next (r.next + 1) (r.newName id kind) :=
  ⟨kind, listed, r.next, Nat.le_refl _, Nat.lt_succ_self _, rfl⟩

def Consecutive (id : ConnectionId) : Nat → List String → Prop
  | _, [] => True
  | n, name :: rest => Named id n (n + 1) name ∧ Consecutive id (n + 1) rest

namespace Consecutive

variable {id : ConnectionId}

theorem named {n : Nat} {names : List String} (consecutive : Consecutive id n names) :
    ∀ name ∈ names, Named id n (n + names.length) name := by
  induction names generalizing n with
  | nil => exact fun _ member => nomatch member
  | cons first rest ih =>
    intro name member
    rw [List.length_cons]
    rcases List.mem_cons.mp member with rfl | member
    · exact consecutive.1.widen (Nat.le_refl _) (by omega)
    · exact (ih consecutive.2 name member).widen (Nat.le_succ _) (by omega)

theorem nodup {n : Nat} {names : List String} (consecutive : Consecutive id n names)
    (few : n + names.length ≤ UInt32.size) : names.Nodup := by
  induction names generalizing n with
  | nil => exact List.nodup_nil
  | cons first rest ih =>
    rw [List.length_cons] at few
    refine List.nodup_cons.mpr ⟨fun again => ?_, ih consecutive.2 (by omega)⟩
    exact consecutive.1.disjoint (consecutive.2.named first again) (Nat.le_refl _) (by omega)

end Consecutive

end RemoteInspector.Registry
