import Mathlib.Algebra.Order.Floor.Div
import Keypad.Number.Display
import Keypad.Proofs.Nearest

/-!
# Decimals as rational numbers

The double nearest to a decimal depends on its value alone. The decimal that is found for a
double is read back as that double, whether one of the grids had it or the exact value had to
stand in.
-/

namespace Keypad

open Double

namespace Decimal

/-- The value of a decimal. -/
def toRat (d : Decimal) : ℚ := d.coefficient * 10 ^ d.exponent

theorem toRat_nonneg (d : Decimal) : 0 ≤ d.toRat := by
  unfold toRat
  positivity

theorem toRat_toFraction (d : Decimal) : d.toFraction.toRat = d.toRat := by
  rw [toFraction, Fraction.toRat_scale]
  simp [Fraction.toRat, toRat]

theorem den_toFraction_ne_zero (d : Decimal) : d.toFraction.den ≠ 0 :=
  Fraction.den_scale_ne_zero (by decide) one_ne_zero _

/-- A decimal far beyond the doubles is greater than all of them. -/
theorem large_of_exponent {d : Decimal} (coefficient : d.coefficient ≠ 0)
    (h : 308 < d.exponent) : 2 ^ (1024 : ℤ) ≤ d.toRat := by
  have one : (1 : ℚ) ≤ d.coefficient := by exact_mod_cast Nat.one_le_iff_ne_zero.mpr coefficient
  have powers : 2 ^ 1024 ≤ 10 ^ 309 := by
    calc 2 ^ 1024 = (2 ^ 93) ^ 11 * 2 := by rw [← pow_mul, ← pow_succ]
      _ ≤ (10 ^ 28) ^ 11 * 10 :=
          Nat.mul_le_mul (Nat.pow_le_pow_left (by norm_num) 11) (by decide)
      _ = 10 ^ 309 := by rw [← pow_mul, ← pow_succ]
  calc (2 : ℚ) ^ (1024 : ℤ) ≤ 1 * 10 ^ (309 : ℤ) := by
        rw [one_mul]
        exact_mod_cast powers
    _ ≤ d.coefficient * 10 ^ d.exponent := by
        gcongr
        · norm_num
        · exact h

/-- A decimal far below the doubles is less than half of the least of them. -/
theorem small_of_exponent {d : Decimal}
    (h : Nat.log2 d.coefficient + 1 + 3 * d.exponent < -1100) :
    d.toRat < 2 ^ (-1075 : ℤ) := by
  have bits : (d.coefficient : ℚ) < 2 ^ ((Nat.log2 d.coefficient : ℤ) + 1) := by
    exact_mod_cast Nat.lt_log2_self
  have power : (10 : ℚ) ^ d.exponent ≤ 2 ^ (3 * d.exponent) := by
    obtain ⟨n, hn⟩ : ∃ n : ℕ, d.exponent = -(n : ℤ) := ⟨(-d.exponent).toNat, by omega⟩
    rw [hn, zpow_mul, zpow_neg, zpow_neg, zpow_natCast, zpow_natCast]
    gcongr
    norm_num
  calc d.toRat < 2 ^ ((Nat.log2 d.coefficient : ℤ) + 1) * 10 ^ d.exponent := by
        unfold toRat
        gcongr
    _ ≤ 2 ^ ((Nat.log2 d.coefficient : ℤ) + 1) * 2 ^ (3 * d.exponent) := by gcongr
    _ = 2 ^ ((Nat.log2 d.coefficient : ℤ) + 1 + 3 * d.exponent) :=
        (zpow_add₀ two_ne_zero _ _).symm
    _ ≤ 2 ^ (-1075 : ℤ) := zpow_le_zpow_right₀ one_le_two (by omega)

/-- The index that is computed for a decimal is that of the double nearest to its value; to
settle the extremes by their size alone changes nothing. -/
theorem nearestIndex_eq (d : Decimal) : d.nearestIndex = nearest d.toRat := by
  unfold nearestIndex
  split
  · rename_i zero
    simp [toRat, zero]
  · rename_i coefficient
    have positive : 0 < d.toRat := by
      unfold toRat
      positivity
    split
    · rename_i large
      exact (nearest_eq_infinityIndex (large_of_exponent coefficient large)).symm
    · split
      · rename_i small
        exact (nearest_eq_zero positive (small_of_exponent small)).symm
      · rw [Double.nearestIndex_eq (den_toFraction_ne_zero d), toRat_toFraction]

theorem digitCount_le_iff {n k : ℕ} (h : 0 < k) : digitCount n ≤ k ↔ n < 10 ^ k :=
  Nat.length_toDigits_le_iff (by decide) h

theorem digitCount_pos (n : ℕ) : 0 < digitCount n := Nat.length_toDigits_pos

theorem digitCount_eq_log {n : ℕ} (h : n ≠ 0) : digitCount n = Nat.log 10 n + 1 := by
  have positive := digitCount_pos n
  have above := (digitCount_le_iff positive).mp le_rfl
  apply le_antisymm
  · exact (digitCount_le_iff (Nat.succ_pos _)).mpr (Nat.lt_pow_succ_log_self (by decide) n)
  · exact Nat.log_lt_of_lt_pow h above

theorem digitCount_pred_eq_clog {n : ℕ} (h : 1 < n) : digitCount (n - 1) = Nat.clog 10 n := by
  have least : ∀ k, 0 < k → (digitCount (n - 1) ≤ k ↔ Nat.clog 10 n ≤ k) := by
    intro k hk
    rw [digitCount_le_iff hk, Nat.clog_le_iff_le_pow (by decide)]
    omega
  exact le_antisymm ((least _ (Nat.clog_pos (by decide) h)).mpr le_rfl)
    ((least _ (digitCount_pos _)).mp le_rfl)

/-- The exponent of the leading digit is the logarithm. -/
theorem leadingExponent_eq {f : Fraction} (num : f.num ≠ 0) (den : f.den ≠ 0) :
    leadingExponent f = Int.log 10 f.toRat := by
  have numPos : (0 : ℚ) < f.num := by positivity
  have denPos : (0 : ℚ) < f.den := by positivity
  unfold leadingExponent
  split
  · rename_i le
    have reaches : 1 ≤ f.toRat := by
      rw [Fraction.toRat, one_le_div denPos]
      exact_mod_cast le
    have quotient : f.num / f.den ≠ 0 := (Nat.div_pos le (Nat.pos_of_ne_zero den)).ne'
    rw [Int.log_of_one_le_right _ reaches, ← Fraction.floor_eq, Fraction.floor,
      digitCount_eq_log quotient]
    push_cast
    ring
  · rename_i less
    rw [not_le] at less
    have below : f.toRat ≤ 1 := by
      rw [Fraction.toRat, div_le_one denPos]
      exact_mod_cast less.le
    have ceil : ⌈f.toRat⁻¹⌉₊ = (f.den + f.num - 1) / f.num := by
      apply eq_of_forall_ge_iff
      intro k
      rw [Nat.ceil_le, ← Nat.ceilDiv_eq_add_pred_div,
        ceilDiv_le_iff_le_mul (Nat.pos_of_ne_zero num), Fraction.toRat, inv_div,
        div_le_iff₀ numPos, mul_comm]
      exact_mod_cast Iff.rfl
    have more : 1 < (f.den + f.num - 1) / f.num := by
      rw [Nat.lt_div_iff_mul_lt (Nat.pos_of_ne_zero num)]
      omega
    rw [Int.log_of_right_le_one _ below, ceil, digitCount_pred_eq_clog more]

theorem leadingExponent_magnitude {i : ℕ} (h : i ≠ 0) :
    leadingExponent (magnitude i) = Int.log 10 (value i) := by
  have num : (magnitude i).num ≠ 0 := by
    intro zero
    have positive := value_pos h
    simp [value, Fraction.toRat, zero] at positive
  exact leadingExponent_eq num (den_magnitude_ne_zero i)

theorem nearestIndex_of_gridPoint? {i : ℕ} {f : Fraction} {unit : ℤ} {d : Decimal}
    (found : gridPoint? i f unit = some d) : d.nearestIndex = i := by
  unfold gridPoint? at found
  dsimp only at found
  split at found
  · rename_i below
    split at found
    · rename_i above
      -- Between the two that read back the rounding has to choose one of them.
      obtain rfl := Option.some.inj found
      unfold Fraction.roundToEven
      dsimp only
      split
      · exact below
      · exact above
    · obtain rfl := Option.some.inj found
      exact below
  · split at found
    · rename_i above
      obtain rfl := Option.some.inj found
      exact above
    · cases found

/-- The decimal that stands in for a double is the double itself. -/
theorem toRat_shortestFrom_zero (i : ℕ) (lead : ℤ) (digits : ℕ) :
    (shortestFrom i (magnitude i) lead 0 digits).toRat = value i := by
  unfold shortestFrom
  dsimp only
  rw [value_eq]
  split
  · rename_i nonneg
    obtain ⟨n, hn⟩ : ∃ n : ℕ, Double.exponent i = -(n : ℤ) :=
      ⟨(-Double.exponent i).toNat, by omega⟩
    have num : (magnitude i).num = significand i := by
      unfold magnitude Fraction.scale
      split
      · have : n = 0 := by omega
        simp [hn, this]
      · rfl
    have power : (10 : ℚ) ^ n = 2 ^ n * 5 ^ n := by
      rw [← mul_pow]
      norm_num
    simp only [toRat, num, hn, neg_neg, Int.toNat_natCast, Nat.pow_eq, Nat.cast_mul, Nat.cast_pow,
      Nat.cast_ofNat, zpow_neg, zpow_natCast]
    rw [power]
    field_simp
  · rename_i negative
    obtain ⟨n, hn⟩ : ∃ n : ℕ, Double.exponent i = n :=
      ⟨(Double.exponent i).toNat, by omega⟩
    simp [toRat, magnitude, Fraction.scale, hn]

theorem nearestIndex_shortestFrom {i : ℕ} (finite : i ≤ infinityIndex) (lead : ℤ) (fuel : ℕ) :
    ∀ digits, (shortestFrom i (magnitude i) lead fuel digits).nearestIndex = i := by
  induction fuel with
  | zero =>
      intro digits
      rw [nearestIndex_eq, toRat_shortestFrom_zero, nearest_value finite]
  | succ fuel ih =>
      intro digits
      unfold shortestFrom
      split
      · rename_i d found
        exact nearestIndex_of_gridPoint? found
      · exact ih (digits + 1)

/-- The shortest decimal of a double is read back as the double. -/
theorem nearestIndex_shortest {i : ℕ} (finite : i ≤ infinityIndex) :
    (shortest i).nearestIndex = i :=
  nearestIndex_shortestFrom finite _ _ _

theorem nearest_toRat_shortest {i : ℕ} (finite : i ≤ infinityIndex) :
    nearest (shortest i).toRat = i := by
  rw [← nearestIndex_eq, nearestIndex_shortest finite]

theorem coefficient_shortest_ne_zero {i : ℕ} (h : i ≠ 0) (finite : i ≤ infinityIndex) :
    (shortest i).coefficient ≠ 0 := by
  intro zero
  have back := nearest_toRat_shortest finite
  rw [toRat, zero, Nat.cast_zero, zero_mul, nearest_zero] at back
  exact h back.symm

/-- The exponent of the first digit is the logarithm of the value. -/
theorem lead_eq_log {d : Decimal} (h : d.coefficient ≠ 0) : d.lead = Int.log 10 d.toRat := by
  have positive : 0 < d.toRat := by
    unfold toRat
    positivity
  have below := Nat.pow_log_le_self 10 h
  have above := Nat.lt_pow_succ_log_self (show 1 < 10 by decide) d.coefficient
  rw [lead, digitCount_eq_log h]
  symm
  apply log_eq_of_between (by decide) positive
  · rw [show d.exponent + ((Nat.log 10 d.coefficient + 1 : ℕ) : ℤ) - 1
      = Nat.log 10 d.coefficient + d.exponent by push_cast; ring, Nat.cast_ofNat,
      zpow_add₀ (by norm_num), zpow_natCast, toRat]
    gcongr
    exact_mod_cast below
  · rw [show d.exponent + ((Nat.log 10 d.coefficient + 1 : ℕ) : ℤ) - 1 + 1
      = (Nat.log 10 d.coefficient + 1 : ℕ) + d.exponent by push_cast; ring, Nat.cast_ofNat,
      zpow_add₀ (by norm_num), zpow_natCast, toRat]
    gcongr
    exact_mod_cast above

end Decimal

end Keypad
