import Keypad.Proofs.Bits
import Keypad.Proofs.Shortest

/-!
# Twelve digits

A result is rounded to twelve significant digits before it is shown. On the rational numbers
this rounding keeps the order, and a number of twelve digits comes back to itself even after
it went through the nearest double: the distance between the two is far less than half a unit
of the last digit. So rounding twice is rounding once, a finite result stays finite, and one
that is not taken for zero stays so.
-/

namespace Keypad

open Double Decimal

/-- The exponent of the last of `digits` significant digits of a positive number. -/
def lastPlace (digits : ℕ) (x : ℚ) : ℤ := Int.log 10 x - digits + 1

/-- A positive number rounded to `digits` significant digits. -/
def significant (digits : ℕ) (x : ℚ) : ℚ :=
  roundUp (x * 10 ^ (-lastPlace digits x)) * 10 ^ lastPlace digits x

variable {digits : ℕ} {x y : ℚ}

theorem ten_zpow_pos (k : ℤ) : (0 : ℚ) < 10 ^ k := by positivity

theorem ten_zpow_eq (k : ℤ) : (10 : ℚ) ^ k = 10 * 10 ^ (k - 1) := by
  rw [zpow_sub_one₀ (by norm_num)]
  field_simp

/-- All digits of what is rounded stand before the point. -/
theorem le_roundUp_scaled (hx : 0 < x) (h : 0 < digits) :
    10 ^ digits ≤ 10 * roundUp (x * 10 ^ (-lastPlace digits x)) := by
  obtain ⟨n, rfl⟩ : ∃ n : ℕ, digits = n + 1 := ⟨digits - 1, by omega⟩
  have place : Int.log 10 x = n + lastPlace (n + 1) x := by
    unfold lastPlace
    push_cast
    ring
  have below : (10 : ℚ) ^ Int.log 10 x ≤ x := Int.zpow_log_le_self (by decide) hx
  have scaled : ((10 ^ n : ℕ) : ℚ) ≤ x * 10 ^ (-lastPlace (n + 1) x) := by
    rw [zpow_neg, ← div_eq_mul_inv, le_div_iff₀ (ten_zpow_pos _), Nat.cast_pow, Nat.cast_ofNat,
      ← zpow_natCast, ← zpow_add₀ (by norm_num), ← place]
    exact below
  have rounded : 10 ^ n ≤ roundUp (x * 10 ^ (-lastPlace (n + 1) x)) := by
    refine Nat.le_floor (scaled.trans ?_)
    linarith
  rw [pow_succ, mul_comm]
  exact Nat.mul_le_mul_left 10 rounded

/-- No more than `digits` digits stand before the point. -/
theorem scaled_lt (digits : ℕ) (x : ℚ) :
    x * 10 ^ (-lastPlace digits x) < ((10 ^ digits : ℕ) : ℚ) := by
  have place : Int.log 10 x + 1 = digits + lastPlace digits x := by
    unfold lastPlace
    ring
  have above : x < (10 : ℚ) ^ (Int.log 10 x + 1) := Int.lt_zpow_succ_log_self (by decide) x
  rw [zpow_neg, ← div_eq_mul_inv, div_lt_iff₀ (ten_zpow_pos _), Nat.cast_pow, Nat.cast_ofNat,
    ← zpow_natCast, ← zpow_add₀ (by norm_num), ← place]
  exact above

/-- Nor do they after rounding, except for a carry. -/
theorem roundUp_scaled_le (digits : ℕ) (x : ℚ) :
    roundUp (x * 10 ^ (-lastPlace digits x)) ≤ 10 ^ digits := by
  have whole : roundUp ((10 ^ digits : ℕ) : ℚ) = 10 ^ digits := roundUp_eq (by simp)
  exact (roundUp_mono (scaled_lt digits x).le).trans_eq whole

/-- What is rounded is no less than the power of its leading digit. -/
theorem pow_log_le_significant (hx : 0 < x) (h : 0 < digits) :
    10 ^ Int.log 10 x ≤ significant digits x := by
  have least : (10 : ℚ) ^ (digits : ℤ) ≤ 10 * roundUp (x * 10 ^ (-lastPlace digits x)) := by
    exact_mod_cast le_roundUp_scaled hx h
  have unit := ten_zpow_pos (lastPlace digits x - 1)
  have place : Int.log 10 x = digits + (lastPlace digits x - 1) := by
    unfold lastPlace
    ring
  have last := ten_zpow_eq (lastPlace digits x)
  rw [significant, place, zpow_add₀ (by norm_num), last]
  nlinarith

/-- What is rounded is no greater than the next power. -/
theorem significant_le_pow_log (digits : ℕ) (x : ℚ) :
    significant digits x ≤ 10 ^ (Int.log 10 x + 1) := by
  have most : (roundUp (x * 10 ^ (-lastPlace digits x)) : ℚ) ≤ 10 ^ (digits : ℤ) := by
    exact_mod_cast roundUp_scaled_le digits x
  have place : Int.log 10 x + 1 = digits + lastPlace digits x := by
    unfold lastPlace
    ring
  rw [significant, place, zpow_add₀ (by norm_num)]
  gcongr

/-- Rounding to significant digits keeps the order. -/
theorem significant_mono (h : 0 < digits) (hx : 0 < x) (le : x ≤ y) :
    significant digits x ≤ significant digits y := by
  have hy : 0 < y := hx.trans_le le
  rcases (Int.log_mono_right (b := 10) hx le).eq_or_lt with same | less
  · have place : lastPlace digits x = lastPlace digits y := by
      unfold lastPlace
      rw [same]
    unfold significant
    rw [place]
    have scaled : x * 10 ^ (-lastPlace digits y) ≤ y * 10 ^ (-lastPlace digits y) := by gcongr
    have rounded := roundUp_mono scaled
    gcongr
  · calc significant digits x ≤ 10 ^ (Int.log 10 x + 1) := significant_le_pow_log digits x
      _ ≤ 10 ^ Int.log 10 y := zpow_le_zpow_right₀ (by norm_num) less
      _ ≤ significant digits y := pow_log_le_significant hy h

/-- A number less than half a unit of its last place away from so many units is rounded to
them. -/
theorem significant_of_units {n : ℕ} {k : ℤ} (place : lastPlace digits x = k)
    (near : |x - n * 10 ^ k| < 10 ^ k / 2) : significant digits x = n * 10 ^ k := by
  have positive := ten_zpow_pos k
  have distance : |x * 10 ^ (-k) - n| < 1 / 2 := by
    have expand : x * 10 ^ (-k) - n = (x - n * 10 ^ k) / 10 ^ k := by
      rw [zpow_neg]
      field_simp
    rw [expand, abs_div, abs_of_pos positive, div_lt_iff₀ positive]
    linarith
  rw [significant, place, roundUp_eq distance]

section Near

variable {m : ℕ} {u : ℤ} (h : 0 < digits) (least : 10 ^ digits ≤ 10 * m) (most : m ≤ 10 ^ digits)
  (near : |x - m * 10 ^ u| < 10 ^ (u - 1) / 2)

include most near

/-- Beyond a power of ten lies only a number that is very near to that power. -/
theorem eq_pow_of_near (reaches : (10 : ℚ) ^ (u + digits) ≤ x) : m = 10 ^ digits := by
  refine le_antisymm most (not_lt.mp fun less => ?_)
  have above := (abs_lt.mp near).2
  have ten : (10 : ℚ) ≠ 0 := by norm_num
  have small := ten_zpow_pos (u - 1)
  have fewer : (m : ℚ) + 1 ≤ 10 ^ (digits : ℤ) := by exact_mod_cast less
  rw [zpow_add₀ ten, ten_zpow_eq u] at reaches
  rw [ten_zpow_eq u] at above
  nlinarith

include least

/-- The leading digit of a number very near to one of `digits` digits is at most one place
lower. -/
theorem log_of_near : 0 < x ∧ u + digits - 2 ≤ Int.log 10 x ∧ Int.log 10 x ≤ u + digits := by
  obtain ⟨below, above⟩ := abs_lt.mp near
  have ten : (10 : ℚ) ≠ 0 := by norm_num
  have unit := ten_zpow_eq u
  have small := ten_zpow_pos (u - 1)
  have least' : (10 : ℚ) ^ (digits : ℤ) ≤ 10 * m := by exact_mod_cast least
  have most' : (m : ℚ) ≤ 10 ^ (digits : ℤ) := by exact_mod_cast most
  have first : (1 : ℚ) ≤ m := by
    have : 0 < 10 ^ digits := by positivity
    exact_mod_cast (by omega : 1 ≤ m)
  have hx : 0 < x := by nlinarith
  have lower : (10 : ℚ) ^ (u + digits - 2) ≤ x := by
    have split : (10 : ℚ) ^ (u + digits - 2) = 10 ^ (u - 1) * 10 ^ (digits : ℤ) / 10 := by
      rw [← zpow_add₀ ten, show u + digits - 2 = (u - 1 + digits) - 1 by ring,
        zpow_sub_one₀ ten]
      ring
    rw [split]
    nlinarith
  have upper : x < (10 : ℚ) ^ (u + digits + 1) := by
    have split : (10 : ℚ) ^ (u + digits + 1) = 10 * 10 ^ u * 10 ^ (digits : ℤ) := by
      rw [zpow_add_one₀ ten, zpow_add₀ ten]
      ring
    rw [split, unit]
    rw [unit] at above
    nlinarith
  have atLeast := (Int.zpow_le_iff_le_log (b := 10) (by decide) hx).mp lower
  have atMost := (Int.lt_zpow_iff_log_lt (b := 10) (by decide) hx).mp upper
  exact ⟨hx, atLeast, by omega⟩

include h

/-- Whatever the place of its last digit is, a number very near to one of `digits` digits is near
to a whole number of units of that place. -/
theorem exists_units_of_near :
    u - 1 ≤ lastPlace digits x ∧ ∃ n : ℕ, (n : ℚ) * 10 ^ lastPlace digits x = m * 10 ^ u := by
  obtain ⟨hx, atLeast, atMost⟩ := log_of_near least most near
  have ten : (10 : ℚ) ≠ 0 := by norm_num
  refine ⟨by unfold lastPlace; omega, ?_⟩
  obtain place | place | place : lastPlace digits x = u - 1 ∨ lastPlace digits x = u ∨
      lastPlace digits x = u + 1 := by
    unfold lastPlace
    omega
  · refine ⟨10 * m, ?_⟩
    rw [place, ten_zpow_eq u]
    push_cast
    ring
  · exact ⟨m, by rw [place]⟩
  · have reaches : (10 : ℚ) ^ (u + digits) ≤ x := by
      refine (Int.zpow_le_iff_le_log (b := 10) (by decide) hx).mpr ?_
      unfold lastPlace at place
      omega
    have whole := eq_pow_of_near most near reaches
    refine ⟨10 ^ (digits - 1), ?_⟩
    rw [place, whole, zpow_add_one₀ ten]
    obtain ⟨n, rfl⟩ : ∃ n : ℕ, digits = n + 1 := ⟨digits - 1, by omega⟩
    push_cast
    rw [pow_succ]
    ring

/-- A number very near to one of `digits` digits is rounded to it, also where it lies beyond a
power of ten from it. -/
theorem significant_of_near : significant digits x = m * 10 ^ u := by
  obtain ⟨le, n, same⟩ := exists_units_of_near h least most near
  have grows : (10 : ℚ) ^ (u - 1) ≤ 10 ^ lastPlace digits x :=
    zpow_le_zpow_right₀ (by norm_num) le
  rw [← same] at near ⊢
  exact significant_of_units rfl (near.trans_le (by linarith))

end Near

/-- A number of at most twelve digits is very near to its nearest double, unless it is so small
that a double has fewer digits than that. -/
theorem abs_value_nearest_sub_lt {m : ℕ} {u : ℤ} (positive : m ≠ 0) (most : m ≤ 10 ^ 12)
    (large : -300 ≤ u) (finite : nearest (m * 10 ^ u) < infinityIndex) :
    |value (nearest (m * 10 ^ u)) - m * 10 ^ u| < 10 ^ (u - 1) / 2 := by
  have hd : (0 : ℚ) < m * 10 ^ u := by positivity
  have most' : (m : ℚ) ≤ 10 ^ 12 := by exact_mod_cast most
  have unit : (10 : ℚ) ^ (u - 1) = 10 ^ u / 10 := zpow_sub_one₀ (by norm_num) u
  have power := ten_zpow_pos u
  refine (abs_value_nearest_sub_le hd finite).trans_lt ?_
  rcases max_choice (-1074) (Int.log 2 ((m : ℚ) * 10 ^ u) - 52) with least | usual
  · have powers : 10 ^ 301 < 2 ^ 1074 := by
      calc 10 ^ 301 = (10 ^ 43) ^ 7 := by rw [← pow_mul]
        _ < (2 ^ 153) ^ 7 := Nat.pow_lt_pow_left (by norm_num) (by decide)
        _ ≤ (2 ^ 153) ^ 7 * 2 ^ 3 := Nat.le_mul_of_pos_right _ (by decide)
        _ = 2 ^ 1074 := by rw [← pow_mul, ← pow_add]
    have bound : (2 : ℚ) ^ (-1074 : ℤ) < 10 ^ (-301 : ℤ) := by
      rw [zpow_neg, zpow_neg, inv_lt_inv₀ (by positivity) (by positivity)]
      exact_mod_cast powers
    have scale : (10 : ℚ) ^ (-301 : ℤ) ≤ 10 ^ (u - 1) :=
      zpow_le_zpow_right₀ (by norm_num) (by omega)
    rw [unitOf, least, zpow_sub_one₀ two_ne_zero]
    linarith
  · have below : (2 : ℚ) ^ Int.log 2 ((m : ℚ) * 10 ^ u) ≤ m * 10 ^ u :=
      Int.zpow_log_le_self (by decide) hd
    have split : (2 : ℚ) ^ (Int.log 2 ((m : ℚ) * 10 ^ u) - 52 - 1) =
        2 ^ Int.log 2 ((m : ℚ) * 10 ^ u) / 2 ^ 53 := by
      rw [sub_sub, zpow_sub₀ two_ne_zero]
      norm_num
    rw [unitOf, usual, split, unit, div_lt_iff₀ (by positivity)]
    have bound : (m : ℚ) * 10 ^ u ≤ 10 ^ 12 * 10 ^ u := by gcongr
    linarith

/-- A number of twelve digits is found again from its nearest double. -/
theorem significant_value_nearest {m : ℕ} {u : ℤ} (least : 10 ^ 12 ≤ 10 * m)
    (most : m ≤ 10 ^ 12) (large : -300 ≤ u) (finite : nearest (m * 10 ^ u) < infinityIndex) :
    significant 12 (value (nearest (m * 10 ^ u))) = m * 10 ^ u :=
  significant_of_near (by decide) least most
    (abs_value_nearest_sub_lt (by omega) most large finite)

/-- The index of a double rounded to the digits of a result. -/
def roundedIndex (i : ℕ) : ℕ := (roundedDecimal i).nearestIndex

variable {i j : ℕ}

/-- The decimal of a rounded double is the rounded value. -/
theorem toRat_roundedDecimal (h : i ≠ 0) :
    (roundedDecimal i).toRat = significant resultDigits (value i) := by
  unfold roundedDecimal Decimal.toRat
  dsimp only
  rw [Fraction.roundHalfUp_eq (Fraction.den_scale_ne_zero (by decide) (den_magnitude_ne_zero i) _),
    Fraction.toRat_scale, leadingExponent_magnitude h, significant, lastPlace]
  rfl

theorem roundedIndex_eq (h : i ≠ 0) :
    roundedIndex i = nearest (significant resultDigits (value i)) := by
  rw [roundedIndex, Decimal.nearestIndex_eq, toRat_roundedDecimal h]

theorem significant_value_nonneg (h : i ≠ 0) : 0 ≤ significant resultDigits (value i) := by
  rw [← toRat_roundedDecimal h]
  exact toRat_nonneg _

/-- Rounding keeps the order of doubles. -/
theorem roundedIndex_mono (h : i ≠ 0) (le : i ≤ j) : roundedIndex i ≤ roundedIndex j := by
  have hj : j ≠ 0 := by omega
  rw [roundedIndex_eq h, roundedIndex_eq hj]
  apply nearest_mono (significant_value_nonneg h)
  exact significant_mono (by decide) (value_pos h) (value_strictMono.monotone le)

/-- A finite double stays finite: the greatest of them is rounded towards zero. -/
theorem roundedIndex_lt (finite : i < infinityIndex) : roundedIndex i < infinityIndex := by
  have greatest : roundedIndex (infinityIndex - 1) < infinityIndex := by decide +kernel
  by_cases h : i = 0
  · rw [h]
    decide +kernel
  · exact (roundedIndex_mono h (Nat.le_sub_one_of_lt finite)).trans_lt greatest

/-- The least double that is not shown as zero: it is rounded already, and its digits begin at the
thirteenth place after the point. -/
theorem zeroThreshold_computed : 0 < zeroThreshold ∧ roundedIndex zeroThreshold = zeroThreshold ∧
    leadingExponent (magnitude zeroThreshold) = -13 := by
  decide

theorem zeroThreshold_pos : 0 < zeroThreshold := zeroThreshold_computed.1

/-- A double that is not shown as zero does not become one that is. -/
theorem zeroThreshold_le_roundedIndex (h : zeroThreshold ≤ i) :
    zeroThreshold ≤ roundedIndex i := by
  have least := zeroThreshold_computed.2.1
  exact least.symm.trans_le (roundedIndex_mono zeroThreshold_pos.ne' h)

/-- The last of the twelve digits of a result is at most the twenty-fourth after the point. -/
theorem lastPlace_ge (h : zeroThreshold ≤ i) : -24 ≤ lastPlace resultDigits (value i) := by
  have positive := zeroThreshold_pos
  have log := zeroThreshold_computed.2.2
  rw [leadingExponent_magnitude positive.ne'] at log
  have mono := Int.log_mono_right (b := 10) (value_pos positive.ne')
    (value_strictMono.monotone h)
  unfold lastPlace resultDigits
  omega

/-- Rounding twice is rounding once. -/
theorem roundedIndex_roundedIndex (h : zeroThreshold ≤ i) (finite : i < infinityIndex) :
    roundedIndex (roundedIndex i) = roundedIndex i := by
  have positive := zeroThreshold_pos
  have nonzero : i ≠ 0 := by omega
  have rounded := zeroThreshold_le_roundedIndex h
  have large := lastPlace_ge h
  have stays := roundedIndex_lt finite
  rw [roundedIndex_eq nonzero] at stays
  rw [roundedIndex_eq (by omega : roundedIndex i ≠ 0), roundedIndex_eq nonzero]
  congr 1
  exact significant_value_nearest (le_roundUp_scaled (value_pos nonzero) (by decide))
    (roundUp_scaled_le _ _) (by omega) stays

variable {v : Float}

theorem index_roundSignificant (v : Float) :
    index (roundSignificant v) = roundedIndex (index v) := by
  rw [roundSignificant, Decimal.toDouble, index_ofIndex, roundedIndex]
  rw [Decimal.nearestIndex_eq]
  exact nearest_le _

theorem isNegative_roundSignificant (v : Float) :
    isNegative (roundSignificant v) = isNegative v := by
  rw [roundSignificant, Decimal.toDouble, isNegative_ofIndex]
  rw [Decimal.nearestIndex_eq]
  exact nearest_le _

/-- A rounded number that is rounded again stays as it is. -/
theorem roundSignificant_roundSignificant (h : zeroThreshold ≤ index v)
    (finite : index v < infinityIndex) :
    roundSignificant (roundSignificant v) = roundSignificant v := by
  apply eq_of_index
  · rw [isNegative_roundSignificant]
  · rw [index_roundSignificant (roundSignificant v), index_roundSignificant,
      roundedIndex_roundedIndex h finite]

end Keypad
