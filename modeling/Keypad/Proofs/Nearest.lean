import Mathlib.Tactic.NormNum
import Keypad.Proofs.Fraction

/-!
# The nearest double

An index is an exponent and a significand written side by side. Read that way, finding the
double nearest to a rational number is one rounding, the doubles are ordered as their indices
are, and every double is nearest to itself. From the order alone follows which numbers are
beyond the doubles and which are too small to be told from zero.
-/

namespace Keypad.Double

/-- The double that an index stands for, as a rational number. -/
def value (i : ℕ) : ℚ := (magnitude i).toRat

/-- The binary exponent of the last bit of the double nearest to a positive number. -/
def unitOf (x : ℚ) : ℤ := max (-1074) (Int.log 2 x - 52)

/-- A positive number in units of the last bit of the double nearest to it. -/
def inUnits (x : ℚ) : ℚ := x * 2 ^ (-unitOf x)

/-- The index that an exponent, counted from the least, and a significand make. -/
def indexOf (exponent significand : ℕ) : ℕ := exponent * binade + significand

/-- The index of the double nearest to a nonnegative rational number. -/
def nearest (x : ℚ) : ℕ :=
  if x = 0 then 0 else min infinityIndex (indexOf (unitOf x + 1074).toNat (roundEven (inUnits x)))

theorem value_eq (i : ℕ) : value i = significand i * 2 ^ exponent i := by
  rw [value, magnitude, Fraction.toRat_scale]
  simp [Fraction.toRat]

@[simp]
theorem value_zero : value 0 = 0 := by
  rw [value_eq]
  simp [significand, binade]

theorem den_magnitude_ne_zero (i : ℕ) : (magnitude i).den ≠ 0 :=
  Fraction.den_scale_ne_zero two_ne_zero one_ne_zero _

theorem value_nonneg (i : ℕ) : 0 ≤ value i := Fraction.toRat_nonneg _

/-- Where an exponent and a significand come from. -/
theorem indexOf_significand (i : ℕ) :
    indexOf (exponent i + 1074).toNat (significand i) = i := by
  unfold indexOf significand exponent
  split
  · simp
  · rename_i large
    have quotient : 1 ≤ i / binade := (Nat.one_le_div_iff (by decide)).mpr (not_lt.mp large)
    have parts := Nat.div_add_mod i binade
    have count : (((i / binade : ℕ) : ℤ) - 1075 + 1074).toNat = i / binade - 1 := by omega
    rw [count, Nat.sub_mul, Nat.mul_comm (i / binade)]
    have below : binade ≤ binade * (i / binade) := Nat.le_mul_of_pos_right _ quotient
    omega

theorem significand_lt (i : ℕ) : significand i < 2 * binade := by
  unfold significand
  have := Nat.mod_lt i (show 0 < binade by decide)
  split <;> omega

/-- Only the least exponent goes with a significand without its leading bit. -/
theorem significand_or_exponent (i : ℕ) : binade ≤ significand i ∨ exponent i = -1074 := by
  unfold significand exponent
  split
  · exact .inr rfl
  · exact .inl (Nat.le_add_right _ _)

theorem exponent_ge (i : ℕ) : -1074 ≤ exponent i := by
  unfold exponent
  split
  · exact le_rfl
  · rename_i large
    have quotient : 1 ≤ i / binade := (Nat.one_le_div_iff (by decide)).mpr (not_lt.mp large)
    omega

/-- An index stands for its significand at its exponent, also where the significand has just
spilled into the exponent. -/
theorem value_indexOf {e s : ℕ} (most : s ≤ 2 * binade) (least : binade ≤ s ∨ e = 0) :
    value (indexOf e s) = s * 2 ^ ((e : ℤ) - 1074) := by
  have positive : 0 < binade := by decide
  rw [value_eq]
  rcases Nat.lt_or_ge s binade with small | large
  · obtain rfl : e = 0 := least.resolve_left (not_le.mpr small)
    simp [indexOf, significand, exponent, small]
  · rcases Nat.lt_or_ge s (2 * binade) with ordinary | carry
    · obtain ⟨t, rfl⟩ := Nat.exists_eq_add_of_le large
      have quotient : (e * binade + (binade + t)) / binade = e + 1 := by
        rw [show e * binade + (binade + t) = t + (e + 1) * binade by ring,
          Nat.add_mul_div_right _ _ positive, Nat.div_eq_of_lt (by omega), Nat.zero_add]
      have remainder : (e * binade + (binade + t)) % binade = t := by
        rw [show e * binade + (binade + t) = t + (e + 1) * binade by ring,
          Nat.add_mul_mod_self_right, Nat.mod_eq_of_lt (by omega)]
      have reaches : ¬ e * binade + (binade + t) < binade := by
        have := Nat.zero_le (e * binade)
        omega
      simp only [indexOf, significand, exponent, if_neg reaches, quotient, remainder]
      push_cast
      congr 2
      ring
    · obtain rfl : s = 2 * binade := le_antisymm most carry
      have quotient : (e * binade + 2 * binade) / binade = e + 2 := by
        rw [← Nat.add_mul, Nat.mul_div_cancel _ positive]
      have remainder : (e * binade + 2 * binade) % binade = 0 := by
        rw [← Nat.add_mul, Nat.mul_mod_left]
      have reaches : ¬ e * binade + 2 * binade < binade := by
        have := Nat.zero_le (e * binade)
        omega
      simp only [indexOf, significand, exponent, if_neg reaches, quotient, remainder]
      rw [show ((e + 2 : ℕ) : ℤ) - 1075 = 1 + (e - 1074) by push_cast; ring,
        zpow_add₀ two_ne_zero]
      push_cast
      ring

/-- From one double to the next it is one unit of the last bit. -/
theorem value_succ (i : ℕ) : value (i + 1) = value i + 2 ^ exponent i := by
  have next : indexOf (exponent i + 1074).toNat (significand i + 1) = i + 1 :=
    congrArg Nat.succ (indexOf_significand i)
  have count : (((exponent i + 1074).toNat : ℕ) : ℤ) - 1074 = exponent i := by
    have := exponent_ge i
    omega
  have least : binade ≤ significand i + 1 ∨ (exponent i + 1074).toNat = 0 := by
    rcases significand_or_exponent i with large | small
    · exact .inl (by omega)
    · exact .inr (by omega)
  rw [← next, value_indexOf (significand_lt i) least, count, value_eq]
  push_cast
  ring

/-- The doubles are ordered as their indices are. -/
theorem value_strictMono : StrictMono value := by
  apply strictMono_nat_of_lt_succ
  intro i
  rw [value_succ]
  have : (0 : ℚ) < 2 ^ exponent i := by positivity
  linarith

theorem value_pos {i : ℕ} (h : i ≠ 0) : 0 < value i := by
  rw [← value_zero]
  exact value_strictMono (Nat.pos_of_ne_zero h)

theorem unitOf_ge (x : ℚ) : -1074 ≤ unitOf x := le_max_left _ _

theorem inUnits_pos {x : ℚ} (h : 0 < x) : 0 < inUnits x := by
  unfold inUnits
  positivity

theorem inUnits_mul (x : ℚ) : inUnits x * 2 ^ unitOf x = x := by
  rw [inUnits, mul_assoc, ← zpow_add₀ two_ne_zero, neg_add_cancel, zpow_zero, mul_one]

/-- No more than fifty-three bits stand before the point. -/
theorem inUnits_lt {x : ℚ} (h : 0 < x) : inUnits x < ((2 * binade : ℕ) : ℚ) := by
  have power : ((2 * binade : ℕ) : ℚ) = 2 ^ (53 : ℤ) := by norm_num [binade]
  have above : x < 2 ^ (unitOf x + 53) :=
    (Int.lt_zpow_iff_log_lt Nat.one_lt_two h).mpr (by unfold unitOf; omega)
  rw [power, inUnits, zpow_neg, ← div_eq_mul_inv, div_lt_iff₀ (by positivity),
    ← zpow_add₀ two_ne_zero, add_comm]
  exact above

/-- All fifty-three bits stand before the point unless the unit is the least there is. -/
theorem le_inUnits {x : ℚ} (h : 0 < x) (unit : unitOf x ≠ -1074) : (binade : ℚ) ≤ inUnits x := by
  have power : (binade : ℚ) = 2 ^ (52 : ℤ) := by norm_num [binade]
  have below : 2 ^ (unitOf x + 52) ≤ x :=
    (Int.zpow_le_iff_le_log Nat.one_lt_two h).mpr (by unfold unitOf at unit ⊢; omega)
  rw [power, inUnits, zpow_neg, ← div_eq_mul_inv, le_div_iff₀ (by positivity),
    ← zpow_add₀ two_ne_zero, add_comm]
  exact below

theorem roundEven_inUnits_le {x : ℚ} (h : 0 < x) : roundEven (inUnits x) ≤ 2 * binade :=
  roundEven_le (inUnits_pos h).le (inUnits_lt h).le

theorem le_roundEven_inUnits {x : ℚ} (h : 0 < x) :
    binade ≤ roundEven (inUnits x) ∨ (unitOf x + 1074).toNat = 0 := by
  by_cases unit : unitOf x = -1074
  · exact .inr (by omega)
  · exact .inl (le_roundEven (le_inUnits h unit))

theorem unitOf_mono {x y : ℚ} (h : 0 < x) (le : x ≤ y) : unitOf x ≤ unitOf y :=
  max_le_max_left _ (sub_le_sub_right (Int.log_mono_right h le) _)

@[simp]
theorem nearest_zero : nearest 0 = 0 := if_pos rfl

theorem nearest_of_pos {x : ℚ} (h : 0 < x) :
    nearest x = min infinityIndex (indexOf (unitOf x + 1074).toNat (roundEven (inUnits x))) :=
  if_neg h.ne'

theorem nearest_le (x : ℚ) : nearest x ≤ infinityIndex := by
  unfold nearest
  split
  · exact Nat.zero_le _
  · exact min_le_left _ _

/-- Of two numbers the greater has no lesser nearest double. -/
theorem nearest_mono {x y : ℚ} (h : 0 ≤ x) (le : x ≤ y) : nearest x ≤ nearest y := by
  rcases h.eq_or_lt with rfl | positive
  · rw [nearest_zero]
    exact Nat.zero_le _
  · have positive' : 0 < y := positive.trans_le le
    rw [nearest_of_pos positive, nearest_of_pos positive']
    apply min_le_min_left _
    have units := unitOf_mono positive le
    rcases units.eq_or_lt with same | less
    · -- In the same units the order is that of the two roundings.
      have scaled : inUnits x ≤ inUnits y := by
        unfold inUnits
        rw [same]
        gcongr
      rw [same]
      exact Nat.add_le_add_left (roundEven_mono (inUnits_pos positive).le scaled) _
    · -- A greater unit makes up for the whole significand, a carry included.
      have most := roundEven_inUnits_le positive
      have least := (le_roundEven_inUnits positive').resolve_right (by
        have := unitOf_ge x
        omega)
      have count : (unitOf x + 1074).toNat + 1 ≤ (unitOf y + 1074).toNat := by
        have := unitOf_ge x
        omega
      have exponents := Nat.mul_le_mul_right binade count
      rw [Nat.add_mul, one_mul] at exponents
      unfold indexOf
      omega

/-- The units of a double are its own. -/
theorem unitOf_value {i : ℕ} (h : i ≠ 0) : unitOf (value i) = exponent i := by
  have positive := value_pos h
  have power : ((2 * binade : ℕ) : ℚ) = 2 ^ (53 : ℤ) := by norm_num [binade]
  have power' : (binade : ℚ) = 2 ^ (52 : ℤ) := by norm_num [binade]
  have above : Int.log 2 (value i) < exponent i + 53 := by
    refine (Int.lt_zpow_iff_log_lt Nat.one_lt_two positive).mp ?_
    have bound : (significand i : ℚ) < (2 * binade : ℕ) := Nat.cast_lt.mpr (significand_lt i)
    rw [value_eq, Nat.cast_ofNat, add_comm, zpow_add₀ two_ne_zero, ← power]
    gcongr
  have least := exponent_ge i
  rcases significand_or_exponent i with large | small
  · have below : exponent i + 52 ≤ Int.log 2 (value i) := by
      refine (Int.zpow_le_iff_le_log Nat.one_lt_two positive).mp ?_
      have bound : (binade : ℚ) ≤ significand i := Nat.cast_le.mpr large
      rw [value_eq, Nat.cast_ofNat, add_comm, zpow_add₀ two_ne_zero, ← power']
      gcongr
    unfold unitOf
    omega
  · unfold unitOf
    omega

/-- Every finite double is the nearest to itself. -/
theorem nearest_value {i : ℕ} (finite : i ≤ infinityIndex) : nearest (value i) = i := by
  by_cases zero : i = 0
  · rw [zero, value_zero, nearest_zero]
  · have units : inUnits (value i) = significand i := by
      rw [inUnits, unitOf_value zero, value_eq, mul_assoc, ← zpow_add₀ two_ne_zero,
        add_neg_cancel, zpow_zero, mul_one]
    rw [nearest_of_pos (value_pos zero), unitOf_value zero, units, roundEven_natCast,
      indexOf_significand, min_eq_right finite]

/-- A number no less than a double has no lesser nearest double. -/
theorem le_nearest_of_value_le {x : ℚ} {i : ℕ} (finite : i ≤ infinityIndex)
    (le : value i ≤ x) : i ≤ nearest x :=
  (nearest_value finite).symm.trans_le (nearest_mono (value_nonneg i) le)

/-- The nearest double in units of its last place. -/
theorem value_nearest {x : ℚ} (h : 0 < x) (finite : nearest x < infinityIndex) :
    value (nearest x) = roundEven (inUnits x) * 2 ^ unitOf x := by
  have index : nearest x = indexOf (unitOf x + 1074).toNat (roundEven (inUnits x)) := by
    rw [nearest_of_pos h] at finite ⊢
    exact min_eq_right (min_lt_iff.mp finite |>.resolve_left (lt_irrefl _)).le
  have count : (((unitOf x + 1074).toNat : ℕ) : ℤ) - 1074 = unitOf x := by
    have := unitOf_ge x
    omega
  rw [index, value_indexOf (roundEven_inUnits_le h) (le_roundEven_inUnits h), count]

/-- The nearest double is no farther than half of a unit, if it is finite. -/
theorem abs_value_nearest_sub_le {x : ℚ} (h : 0 < x) (finite : nearest x < infinityIndex) :
    |value (nearest x) - x| ≤ 2 ^ (unitOf x - 1) := by
  have rounded := abs_roundEven_sub_le (inUnits_pos h).le
  have unit : (0 : ℚ) < 2 ^ unitOf x := by positivity
  calc |value (nearest x) - x|
      = |(roundEven (inUnits x) - inUnits x) * 2 ^ unitOf x| := by
        rw [value_nearest h finite, sub_mul, inUnits_mul]
    _ = |(roundEven (inUnits x) : ℚ) - inUnits x| * 2 ^ unitOf x := by
        rw [abs_mul, abs_of_pos unit]
    _ ≤ 1 / 2 * 2 ^ unitOf x := by gcongr
    _ = 2 ^ (unitOf x - 1) := by rw [zpow_sub_one₀ two_ne_zero]; ring

/-- No whole number of units is closer than the nearest double. -/
theorem abs_value_nearest_sub_le_units {x : ℚ} (h : 0 < x) (finite : nearest x < infinityIndex)
    (n : ℕ) :
    |value (nearest x) - x| ≤ |n * 2 ^ unitOf x - x| := by
  have unit : (0 : ℚ) < 2 ^ unitOf x := by positivity
  have scaled (k : ℕ) : |(k : ℚ) * 2 ^ unitOf x - x| = |k - inUnits x| * 2 ^ unitOf x := by
    rw [← abs_of_pos unit, ← abs_mul, abs_of_pos unit, sub_mul, inUnits_mul]
  rw [value_nearest h finite, scaled, scaled]
  have closest := abs_roundEven_sub_le_abs (inUnits_pos h).le n
  gcongr

/-- No double is closer than the nearest one. -/
theorem abs_value_nearest_sub_le_abs {x : ℚ} (h : 0 ≤ x) (finite : nearest x < infinityIndex)
    (i : ℕ) :
    |value (nearest x) - x| ≤ |value i - x| := by
  rcases h.eq_or_lt with rfl | positive
  · simp
  · rcases le_or_gt (unitOf x) (exponent i) with coarse | fine
    · -- A double with a greater unit is a whole number of the units here.
      obtain ⟨k, hk⟩ := Int.le.dest coarse
      have whole : value i = ((significand i * 2 ^ k : ℕ) : ℚ) * 2 ^ unitOf x := by
        rw [value_eq, ← hk, add_comm, zpow_add₀ two_ne_zero, zpow_natCast]
        push_cast
        ring
      rw [whole]
      exact abs_value_nearest_sub_le_units positive finite _
    · -- A double with a smaller unit lies below a double that does not lie above the number.
      have unit : unitOf x ≠ -1074 := by
        have := exponent_ge i
        omega
      have reaches : (binade : ℚ) * 2 ^ unitOf x ≤ x := by
        have least := le_inUnits positive unit
        calc (binade : ℚ) * 2 ^ unitOf x ≤ inUnits x * 2 ^ unitOf x := by gcongr
          _ = x := inUnits_mul x
      have below : value i ≤ binade * 2 ^ unitOf x := by
        have most : (significand i : ℚ) ≤ ((2 * binade : ℕ) : ℚ) :=
          Nat.cast_le.mpr (significand_lt i).le
        calc value i ≤ ((2 * binade : ℕ) : ℚ) * 2 ^ exponent i := by
              rw [value_eq]
              gcongr
          _ ≤ ((2 * binade : ℕ) : ℚ) * 2 ^ (unitOf x - 1) := by
              gcongr
              · norm_num
              · omega
          _ = binade * 2 ^ unitOf x := by
              rw [zpow_sub_one₀ two_ne_zero]
              push_cast
              ring
      have closest := abs_value_nearest_sub_le_units positive finite binade
      calc |value (nearest x) - x| ≤ |binade * 2 ^ unitOf x - x| := closest
        _ = x - binade * 2 ^ unitOf x := by
            rw [abs_sub_comm, abs_of_nonneg (sub_nonneg.mpr reaches)]
        _ ≤ x - value i := sub_le_sub_left below x
        _ = |value i - x| := by
            rw [abs_sub_comm, abs_of_nonneg (sub_nonneg.mpr (below.trans reaches))]

/-- The first power of two that is no double has infinity as its nearest, and so has every
greater number. -/
theorem value_infinityIndex : value infinityIndex = 2 ^ (1024 : ℤ) := by
  rw [value_eq, show significand infinityIndex = binade by decide,
    show exponent infinityIndex = 972 by decide,
    show (binade : ℚ) = 2 ^ (52 : ℤ) by norm_num [binade], ← zpow_add₀ two_ne_zero]
  rfl

theorem nearest_eq_infinityIndex {x : ℚ} (large : 2 ^ (1024 : ℤ) ≤ x) :
    nearest x = infinityIndex :=
  le_antisymm (nearest_le x) (le_nearest_of_value_le le_rfl (value_infinityIndex.trans_le large))

/-- A number below half of the least double is nearest to zero. -/
theorem nearest_eq_zero {x : ℚ} (h : 0 < x) (small : x < 2 ^ (-1075 : ℤ)) : nearest x = 0 := by
  have log : Int.log 2 x < -1075 :=
    (Int.lt_zpow_iff_log_lt Nat.one_lt_two h).mp small
  have unit : unitOf x = -1074 := by
    unfold unitOf
    omega
  have half : inUnits x < 1 / 2 := by
    rw [inUnits, unit, neg_neg]
    calc x * 2 ^ (1074 : ℤ) < 2 ^ (-1075 : ℤ) * 2 ^ (1074 : ℤ) := by gcongr
      _ = 1 / 2 := by rw [← zpow_add₀ two_ne_zero]; norm_num
  rw [nearest_of_pos h, roundEven_eq_zero (inUnits_pos h).le half, unit]
  rfl

/-- The difference of the logarithms of a fraction's parts misses its own by one at most. -/
theorem between_logs {f : Fraction} (num : f.num ≠ 0) (den : f.den ≠ 0) {e : ℤ}
    (difference : e = (Nat.log2 f.num : ℤ) - (Nat.log2 f.den : ℤ)) :
    2 ^ (e - 1) ≤ f.toRat ∧ f.toRat < 2 ^ (e + 1) := by
  have numBelow : (2 : ℚ) ^ (Nat.log2 f.num : ℤ) ≤ f.num := by
    exact_mod_cast Nat.log2_self_le num
  have numAbove : (f.num : ℚ) < 2 ^ ((Nat.log2 f.num : ℤ) + 1) := by
    exact_mod_cast Nat.lt_log2_self
  have denBelow : (2 : ℚ) ^ (Nat.log2 f.den : ℤ) ≤ f.den := by
    exact_mod_cast Nat.log2_self_le den
  have denAbove : (f.den : ℚ) < 2 ^ ((Nat.log2 f.den : ℤ) + 1) := by
    exact_mod_cast Nat.lt_log2_self
  have denPos : (0 : ℚ) < f.den := by positivity
  constructor
  · rw [Fraction.toRat, le_div_iff₀ denPos]
    calc (2 : ℚ) ^ (e - 1) * f.den ≤ 2 ^ (e - 1) * 2 ^ ((Nat.log2 f.den : ℤ) + 1) := by
          gcongr
      _ = 2 ^ (Nat.log2 f.num : ℤ) := by
          rw [← zpow_add₀ two_ne_zero]
          congr 1
          omega
      _ ≤ f.num := numBelow
  · rw [Fraction.toRat, div_lt_iff₀ denPos]
    calc (f.num : ℚ) < 2 ^ (e + 1 + (Nat.log2 f.den : ℤ)) := by
          convert numAbove using 2
          omega
      _ = 2 ^ (e + 1) * 2 ^ (Nat.log2 f.den : ℤ) := zpow_add₀ two_ne_zero _ _
      _ ≤ 2 ^ (e + 1) * f.den := by gcongr

/-- Whether a fraction is less than a power of two is seen from the parts of the scaled one. -/
theorem num_scale_lt_den_scale_iff {f : Fraction} (den : f.den ≠ 0) (e : ℤ) :
    (f.scale 2 (-e)).num < (f.scale 2 (-e)).den ↔ f.toRat < 2 ^ e := by
  have scaledDen : (0 : ℚ) < (f.scale 2 (-e)).den :=
    Nat.cast_pos.mpr (Nat.pos_of_ne_zero (Fraction.den_scale_ne_zero two_ne_zero den _))
  rw [← Nat.cast_lt (α := ℚ), ← div_lt_one scaledDen]
  change (f.scale 2 (-e)).toRat < 1 ↔ _
  rw [Fraction.toRat_scale, Nat.cast_ofNat, zpow_neg, ← div_eq_mul_inv,
    div_lt_one (by positivity)]

/-- The two logarithms leave two exponents to choose from, and a comparison tells which it is. -/
theorem unitExponent_eq {f : Fraction} (num : f.num ≠ 0) (den : f.den ≠ 0) :
    unitExponent f = unitOf f.toRat := by
  have positive := Fraction.toRat_pos num den
  obtain ⟨e, he⟩ : ∃ e : ℤ, e = (Nat.log2 f.num : ℤ) - (Nat.log2 f.den : ℤ) := ⟨_, rfl⟩
  obtain ⟨below, above⟩ := between_logs num den he
  unfold unitExponent unitOf
  simp only [← he, num_scale_lt_den_scale_iff den]
  congr 1
  split
  · rename_i less
    have log : Int.log 2 f.toRat = e - 1 :=
      log_eq_of_between Nat.one_lt_two positive below (by simpa using less)
    omega
  · rename_i reaches
    have log : Int.log 2 f.toRat = e :=
      log_eq_of_between Nat.one_lt_two positive (by simpa using reaches) above
    omega

/-- The index that is computed is that of the nearest double. -/
theorem nearestIndex_eq {f : Fraction} (den : f.den ≠ 0) : nearestIndex f = nearest f.toRat := by
  unfold nearestIndex
  split
  · rename_i zero
    simp [Fraction.toRat, zero]
  · rename_i num
    have scaled : (f.scale 2 (-unitExponent f)).toRat = inUnits f.toRat := by
      rw [Fraction.toRat_scale, unitExponent_eq num den, Nat.cast_ofNat, inUnits]
    dsimp only
    rw [nearest_of_pos (Fraction.toRat_pos num den),
      Fraction.roundToEven_eq (Fraction.den_scale_ne_zero two_ne_zero den _), scaled,
      unitExponent_eq num den, indexOf]

end Keypad.Double
