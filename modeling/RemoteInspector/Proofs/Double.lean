import Mathlib.Algebra.Order.Ring.Nat
import RemoteInspector.Double
/-!
Natural numbers that fit into the mantissa of a double are written into it without loss.
-/
namespace RemoteInspector.Double

/-! ### The fields of a double -/

variable {e m n : Nat}

theorem toNat_bits_ofSize {size : Nat} (fits : size < 2 ^ 63) : (ofSize false size).bits.toNat = size := by
  change (UInt64.ofNat size).toNat = size
  rw [UInt64.toNat_ofNat']
  omega

theorem biasedExponent_eq (d : Double) : d.biasedExponent = d.bits.toNat / 2 ^ 52 % 2 ^ 11 := by
  unfold biasedExponent
  rw [UInt64.toNat_and, UInt64.toNat_shiftRight, show (0x7ff : UInt64).toNat = 2 ^ 11 - 1 from rfl,
    Nat.and_two_pow_sub_one_eq_mod, show (52 : UInt64).toNat % 64 = 52 from rfl, Nat.shiftRight_eq_div_pow]

theorem fraction_eq (d : Double) : d.fraction = d.bits.toNat % 2 ^ 52 := by
  unfold fraction
  rw [UInt64.toNat_and, show (0xfffffffffffff : UInt64).toNat = 2 ^ 52 - 1 from rfl, Nat.and_two_pow_sub_one_eq_mod]

theorem negative_eq (d : Double) : d.negative = decide (2 ^ 63 ≤ d.bits.toNat) := by
  have bound := d.bits.toNat_lt
  have shifted : (d.bits >>> 63).toNat = d.bits.toNat / 2 ^ 63 := by
    rw [UInt64.toNat_shiftRight, show (63 : UInt64).toNat % 64 = 63 from rfl, Nat.shiftRight_eq_div_pow]
  unfold negative
  rw [Bool.eq_iff_iff, beq_iff_eq, decide_eq_true_iff, ← UInt64.toNat_inj, shifted]
  change _ = 1 ↔ _
  omega

theorem truncate_normal (small : e ≤ 52) (low : 2 ^ 52 ≤ m) (high : m < 2 ^ 53) :
    (ofSize false ((e + 1022) * 2 ^ 52 + m)).truncate = (m / 2 ^ (52 - e) : Nat) := by
  have bits : (ofSize false ((e + 1022) * 2 ^ 52 + m)).bits.toNat = (e + 1022) * 2 ^ 52 + m :=
    toNat_bits_ofSize (by omega)
  generalize ofSize false ((e + 1022) * 2 ^ 52 + m) = d at bits
  have exponent : d.biasedExponent = e + 1023 := by
    rw [biasedExponent_eq, bits]
    omega
  have fraction : d.fraction = m - 2 ^ 52 := by
    rw [fraction_eq, bits]
    omega
  have positive : d.negative = false := by
    rw [negative_eq, bits, decide_eq_false_iff_not]
    omega
  have mantissa : d.mantissa = m := by
    rw [Double.mantissa, exponent, fraction, if_neg (Nat.succ_ne_zero _)]
    change m - 2 ^ 52 + 2 ^ 52 = m
    omega
  have scale : -d.exponent = ((52 - e : Nat) : Int) := by
    rw [Double.exponent, exponent, if_neg (Nat.succ_ne_zero _)]
    omega
  rw [truncate, mantissa, positive, scale, scaled, if_neg (by omega)]
  simp only [Int.toNat_natCast, Nat.one_mul]
  rfl

/-! ### Natural numbers -/

theorem roundQuotient_one (tie : Tie) (n : Nat) : roundQuotient tie n 1 = n := by
  simp [roundQuotient, Nat.mod_one]

theorem shifted_bounds {k : Nat} (low : 2 ^ k ≤ n) (high : n < 2 ^ (k + 1)) (small : k ≤ 52) :
    2 ^ 52 ≤ n * 2 ^ (52 - k) ∧ n * 2 ^ (52 - k) < 2 ^ 53 := by
  have whole : 2 ^ k * 2 ^ (52 - k) = 2 ^ 52 := by rw [← Nat.pow_add, Nat.add_sub_cancel' small]
  constructor
  · rw [← whole]
    exact Nat.mul_le_mul_right _ low
  · have twice : 2 ^ (k + 1) * 2 ^ (52 - k) = 2 ^ 53 := by rw [Nat.pow_succ, Nat.mul_right_comm, whole, ← Nat.pow_succ]
    rw [← twice]
    exact Nat.mul_lt_mul_of_pos_right high (Nat.two_pow_pos _)

/-- A number is written in units of which at most `2 ^ 53` go into it, and at least half as many. -/
theorem ofNat_eq {k : Nat} (log : Nat.log2 n = k) (positive : n ≠ 0) (small : n < 2 ^ 53) :
    k ≤ 52 ∧ 2 ^ 52 ≤ n * 2 ^ (52 - k) ∧ n * 2 ^ (52 - k) < 2 ^ 53 ∧
      ofNat n = ofSize false ((k + 1022) * 2 ^ 52 + n * 2 ^ (52 - k)) := by
  have low : 2 ^ k ≤ n := log ▸ Nat.log2_self_le positive
  have high : n < 2 ^ (k + 1) := log ▸ Nat.lt_log2_self
  have few : k ≤ 52 := Nat.le_of_lt_succ ((Nat.pow_lt_pow_iff_right (by decide)).mp (Nat.lt_of_le_of_lt low small))
  obtain ⟨low', high'⟩ := shifted_bounds low high few
  have guess : max ((k : Int) - (Nat.log2 1 : Nat) - 53) (-1074) = (k : Int) - 53 := by
    rw [show Nat.log2 1 = 0 from rfl]
    omega
  have coarse : scaled n 1 ((k : Int) - 53) = (n * 2 ^ (52 - k) * 2, 1) := by
    rw [scaled, if_pos (by omega), show (-((k : Int) - 53)).toNat = 52 - k + 1 by omega]
    exact congrArg (·, 1) ((Nat.mul_assoc _ _ _).symm ▸ congrArg (n * ·) (Nat.pow_succ ..))
  have fine : scaled n 1 ((k : Int) - 53 + 1) = (n * 2 ^ (52 - k), 1) := by
    rw [scaled]
    split
    · rw [show (-((k : Int) - 53 + 1)).toNat = 52 - k by omega]
      rfl
    · rw [show ((k : Int) - 53 + 1).toNat = 0 by omega, show 52 - k = 0 by omega]
      simp
  have unit : Nat.pow 2 52 = 2 ^ 52 := rfl
  have full : ¬ n * 2 ^ (52 - k) * 2 < Nat.pow 2 53 := by
    rw [show Nat.pow 2 53 = 2 ^ 53 from rfl]
    omega
  have fits : (k + 1022) * Nat.pow 2 52 + n * 2 ^ (52 - k) < 2047 * Nat.pow 2 52 := by
    rw [unit]
    omega
  refine ⟨few, low', high', ?_⟩
  unfold ofNat ofQuotient
  rw [if_neg positive]
  simp only [log, guess, coarse, Nat.div_one, if_neg full, fine, roundQuotient_one]
  rw [show ((k : Int) - 53 + 1 + 1074).toNat = k + 1022 by omega, if_pos fits, unit]

theorem truncate_zero : (ofNat 0).truncate = 0 := by
  have none : (ofNat 0).mantissa = 0 := by decide +kernel
  have nothing (e : Int) : (scaled 0 1 e).1 = 0 := by
    rw [scaled]
    split <;> simp
  rw [truncate, none]
  simp only [nothing, Nat.zero_div]
  split <;> rfl

theorem truncate_ofNat (small : n < 2 ^ 53) : (ofNat n).truncate = n := by
  by_cases zero : n = 0
  · subst zero
    exact truncate_zero
  · obtain ⟨few, low, high, same⟩ := ofNat_eq rfl zero small
    rw [same, truncate_normal few low high, Nat.mul_div_cancel _ (Nat.two_pow_pos _)]

theorem ofInt_natCast (n : Nat) : ofInt n = ofNat n := by
  rw [ofInt, ofNat, Int.natAbs_natCast, decide_eq_false (Int.not_lt.mpr (Int.natCast_nonneg n))]

end RemoteInspector.Double
