import Mathlib.Algebra.Order.Floor.Semifield
import Mathlib.Algebra.Order.Field.Power
import Mathlib.Data.Int.Log
import Mathlib.Data.Rat.Floor
import Mathlib.Tactic.FieldSimp
import Mathlib.Tactic.Linarith
import Mathlib.Tactic.Positivity
import Mathlib.Tactic.Ring
import Keypad.Number.Double

/-!
# Fractions as rational numbers

The arithmetic of indices works on pairs of natural numbers. Here each of its operations is
tied to the rational number that the pair stands for, so that what a fraction rounds to is seen
to depend on its value alone, and the laws of rounding can be found among the rationals.
-/

namespace Keypad

/-- The nearest natural number to a nonnegative rational; from the middle between two, the even
one. -/
def roundEven (x : ℚ) : ℕ :=
  if Int.fract x < 1 / 2 ∨ (Int.fract x = 1 / 2 ∧ Even ⌊x⌋₊) then ⌊x⌋₊ else ⌊x⌋₊ + 1

/-- The nearest natural number to a nonnegative rational; from the middle between two, the
greater one. -/
def roundUp (x : ℚ) : ℕ := ⌊x + 1 / 2⌋₊

theorem floor_add_fract_of_nonneg {x : ℚ} (h : 0 ≤ x) : (⌊x⌋₊ : ℚ) + Int.fract x = x := by
  rw [natCast_floor_eq_intCast_floor h, Int.floor_add_fract]

/-- Rounding moves a number by one half at most. -/
theorem abs_roundEven_sub_le {x : ℚ} (h : 0 ≤ x) : |(roundEven x : ℚ) - x| ≤ 1 / 2 := by
  have parts := floor_add_fract_of_nonneg h
  have nonneg := Int.fract_nonneg x
  have small := Int.fract_lt_one x
  unfold roundEven
  split
  · rename_i below
    have half : Int.fract x ≤ 1 / 2 := below.elim le_of_lt fun tie => tie.1.le
    rw [abs_le]
    constructor <;> linarith
  · rename_i above
    have half : 1 / 2 ≤ Int.fract x := not_lt.mp fun lt => above (.inl lt)
    push_cast
    rw [abs_le]
    constructor <;> linarith

/-- No natural number is closer than the one that a number is rounded to. -/
theorem abs_roundEven_sub_le_abs {x : ℚ} (h : 0 ≤ x) (n : ℕ) :
    |(roundEven x : ℚ) - x| ≤ |n - x| := by
  rcases eq_or_ne n (roundEven x) with rfl | other
  · exact le_rfl
  · have rounded := abs_roundEven_sub_le h
    have apart : (1 : ℚ) ≤ |(n : ℚ) - roundEven x| := by
      have whole : (1 : ℤ) ≤ |(n : ℤ) - roundEven x| := Int.one_le_abs (by omega)
      exact_mod_cast whole
    have triangle := abs_sub_le (n : ℚ) x (roundEven x)
    rw [abs_sub_comm x] at triangle
    linarith

/-- Rounding keeps the order. -/
theorem roundEven_mono {x y : ℚ} (h : 0 ≤ x) (le : x ≤ y) : roundEven x ≤ roundEven y := by
  by_contra less
  have next : (roundEven y : ℚ) + 1 ≤ roundEven x := by exact_mod_cast not_le.mp less
  have first := abs_le.mp (abs_roundEven_sub_le h)
  have second := abs_le.mp (abs_roundEven_sub_le (h.trans le))
  -- Both would lie in the middle between the two results, so they are the same number.
  have same : x = y := le_antisymm le (by linarith)
  rw [same] at less
  exact less le_rfl

@[simp]
theorem roundEven_natCast (n : ℕ) : roundEven n = n := by
  simp [roundEven]

/-- A number between two natural numbers is rounded to a number between them. -/
theorem roundEven_le {x : ℚ} {n : ℕ} (h : 0 ≤ x) (le : x ≤ n) : roundEven x ≤ n := by
  simpa using roundEven_mono h le

theorem le_roundEven {x : ℚ} {n : ℕ} (le : (n : ℚ) ≤ x) : n ≤ roundEven x := by
  simpa using roundEven_mono (Nat.cast_nonneg n) le

/-- What is less than one half is rounded to zero. -/
theorem roundEven_eq_zero {x : ℚ} (h : 0 ≤ x) (small : x < 1 / 2) : roundEven x = 0 := by
  have floor : ⌊x⌋₊ = 0 := Nat.floor_eq_zero.mpr (by linarith)
  have fract : Int.fract x = x := by
    have := floor_add_fract_of_nonneg h
    simpa [floor] using this
  rw [roundEven, fract, if_pos (.inl small), floor]

theorem roundUp_mono {x y : ℚ} (le : x ≤ y) : roundUp x ≤ roundUp y :=
  Nat.floor_le_floor (by linarith)

/-- A natural number less than one half away is the nearest. -/
theorem roundUp_eq {x : ℚ} {n : ℕ} (near : |x - n| < 1 / 2) : roundUp x = n := by
  obtain ⟨below, above⟩ := abs_lt.mp near
  rw [roundUp, Nat.floor_eq_iff (by linarith [Nat.cast_nonneg (α := ℚ) n])]
  constructor <;> linarith

/-- A logarithm is known from the two powers it lies between. -/
theorem log_eq_of_between {base : ℕ} (hbase : 1 < base) {x : ℚ} (h : 0 < x) {k : ℤ}
    (below : (base : ℚ) ^ k ≤ x) (above : x < (base : ℚ) ^ (k + 1)) : Int.log base x = k := by
  have least := (Int.zpow_le_iff_le_log hbase h).mp below
  have greatest := (Int.lt_zpow_iff_log_lt hbase h).mp above
  omega

namespace Double

namespace Fraction

/-- The value of a fraction. -/
def toRat (f : Fraction) : ℚ := f.num / f.den

theorem toRat_nonneg (f : Fraction) : 0 ≤ f.toRat := by
  unfold toRat
  positivity

theorem toRat_pos {f : Fraction} (num : f.num ≠ 0) (den : f.den ≠ 0) : 0 < f.toRat := by
  unfold toRat
  positivity

/-- Scaling by a power. -/
theorem toRat_scale (f : Fraction) (base : ℕ) (exponent : ℤ) :
    (f.scale base exponent).toRat = f.toRat * (base : ℚ) ^ exponent := by
  unfold scale
  split
  · rename_i nonneg
    lift exponent to ℕ using nonneg
    simp [toRat, div_mul_eq_mul_div]
  · rename_i negative
    obtain ⟨n, rfl⟩ : ∃ n : ℕ, exponent = -(n : ℤ) := ⟨(-exponent).toNat, by omega⟩
    simp [toRat, zpow_neg, div_eq_mul_inv]
    ring

theorem den_scale_ne_zero {f : Fraction} {base : ℕ} (hbase : base ≠ 0) (h : f.den ≠ 0)
    (exponent : ℤ) : (f.scale base exponent).den ≠ 0 := by
  unfold scale
  split
  · exact h
  · exact Nat.mul_ne_zero h (pow_ne_zero _ hbase)

theorem floor_eq (f : Fraction) : f.floor = ⌊f.toRat⌋₊ :=
  (Nat.floor_div_eq_div f.num f.den).symm

/-- The remainder of a division as a part of one. -/
theorem fract_toRat (f : Fraction) : Int.fract f.toRat = (f.num % f.den : ℕ) / (f.den : ℚ) :=
  Int.fract_div_natCast_eq_div_natCast_mod

theorem roundToEven_eq {f : Fraction} (h : f.den ≠ 0) : f.roundToEven = roundEven f.toRat := by
  have den : (0 : ℚ) < f.den := by positivity
  have less : Int.fract f.toRat < 1 / 2 ↔ 2 * (f.num % f.den) < f.den := by
    rw [fract_toRat, div_lt_div_iff₀ den two_pos, one_mul, mul_comm]
    exact_mod_cast Iff.rfl
  have tie : Int.fract f.toRat = 1 / 2 ↔ 2 * (f.num % f.den) = f.den := by
    rw [fract_toRat, div_eq_div_iff den.ne' two_ne_zero, one_mul, mul_comm]
    exact_mod_cast Iff.rfl
  simp only [roundToEven, roundEven, less, tie, ← floor_eq, floor, Bool.or_eq_true,
    Bool.and_eq_true, decide_eq_true_eq, beq_iff_eq, Nat.even_iff]

theorem roundHalfUp_eq {f : Fraction} (h : f.den ≠ 0) : f.roundHalfUp = roundUp f.toRat := by
  have den : (0 : ℚ) < f.den := by positivity
  have less : 2 * (f.num % f.den) < f.den ↔ Int.fract f.toRat < 1 / 2 := by
    rw [fract_toRat, div_lt_div_iff₀ den two_pos, one_mul, mul_comm]
    exact_mod_cast Iff.rfl
  have parts := floor_add_fract_of_nonneg f.toRat_nonneg
  have nonneg := Int.fract_nonneg f.toRat
  have small := Int.fract_lt_one f.toRat
  have shifted : 0 ≤ f.toRat + 1 / 2 := by linarith [f.toRat_nonneg]
  simp only [roundHalfUp, less, roundUp]
  rw [eq_comm, ← floor, floor_eq]
  split
  · rw [Nat.floor_eq_iff shifted]
    constructor <;> linarith
  · rename_i above
    rw [not_lt] at above
    rw [Nat.floor_eq_iff shifted]
    push_cast
    constructor <;> linarith

end Fraction

end Double

end Keypad
