import Keypad.Proofs.Guards

/-!
# Powers and their signs

`IsStandardPower` says what the floating-point standard asks of a power of doubles: where it is
not a number, what its sign is, and its size wherever an operand is zero or infinite. It says
nothing of how powers of other numbers are rounded.

The power of an expression follows such a power everywhere but in one place. A power that is
refused is made up for from the operands, and there a zero base counts as positive zero whatever
its sign, so that a negative odd power of negative zero comes out as positive infinity
(`LosesSign`).
-/

namespace Keypad

open Arithmetic Double

variable {base exponent x : Float}

/-- A whole number. -/
def IsWhole (x : Float) : Prop := x.isFinite = true ∧ ∃ n : ℤ, toRat x = n

/-- An odd whole number. -/
def IsOdd (x : Float) : Prop := x.isFinite = true ∧ ∃ n : ℤ, toRat x = 2 * n + 1

theorem Double.Fraction.toRat_eq_natCast_iff {f : Fraction} (den : f.den ≠ 0) {k : ℕ} :
    f.toRat = k ↔ f.num = k * f.den := by
  have positive : (f.den : ℚ) ≠ 0 := by exact_mod_cast den
  rw [Fraction.toRat, div_eq_iff positive]
  exact_mod_cast Iff.rfl

theorem exists_abs_eq_natCast_iff {q : ℚ} : (∃ n : ℤ, q = n) ↔ ∃ k : ℕ, |q| = k := by
  constructor
  · rintro ⟨n, rfl⟩
    exact ⟨n.natAbs, by rw [Nat.cast_natAbs, Int.cast_abs]⟩
  · rintro ⟨k, size⟩
    rcases abs_eq (Nat.cast_nonneg k) |>.mp size with rfl | rfl
    · exact ⟨k, by simp⟩
    · exact ⟨-k, by simp⟩

theorem exists_abs_eq_odd_iff {q : ℚ} :
    (∃ n : ℤ, q = 2 * n + 1) ↔ ∃ k : ℕ, |q| = k ∧ k % 2 = 1 := by
  constructor
  · rintro ⟨n, rfl⟩
    refine ⟨(2 * n + 1).natAbs, ?_, by omega⟩
    rw [Nat.cast_natAbs, Int.cast_abs]
    push_cast
    rfl
  · rintro ⟨k, size, odd⟩
    obtain ⟨half, rfl⟩ : ∃ half, k = 2 * half + 1 := ⟨k / 2, by omega⟩
    rcases abs_eq (Nat.cast_nonneg _) |>.mp size with rfl | rfl
    · exact ⟨half, by push_cast; rfl⟩
    · exact ⟨-half - 1, by push_cast; ring⟩

theorem isInteger_iff (finite : x.isFinite = true) : isInteger x = true ↔ IsWhole x := by
  unfold isInteger IsWhole
  rw [exists_abs_eq_natCast_iff, abs_toRat, beq_iff_eq]
  have den := den_magnitude_ne_zero (index x)
  simp only [value, Fraction.toRat_eq_natCast_iff den, finite, true_and]
  constructor
  · exact fun whole => ⟨_, (Nat.div_mul_cancel (Nat.dvd_of_mod_eq_zero whole)).symm⟩
  · rintro ⟨k, same⟩
    rw [same, Nat.mul_mod_left]

theorem isOddInteger_iff (finite : x.isFinite = true) : isOddInteger x = true ↔ IsOdd x := by
  unfold isOddInteger IsOdd
  rw [exists_abs_eq_odd_iff, abs_toRat, Bool.and_eq_true, beq_iff_eq, beq_iff_eq]
  have den := den_magnitude_ne_zero (index x)
  simp only [value, Fraction.toRat_eq_natCast_iff den, finite, true_and]
  constructor
  · rintro ⟨whole, odd⟩
    exact ⟨_, (Nat.div_mul_cancel (Nat.dvd_of_mod_eq_zero whole)).symm, odd⟩
  · rintro ⟨k, same, odd⟩
    rw [same, Nat.mul_mod_left, Nat.mul_div_cancel _ (Nat.pos_of_ne_zero den)]
    exact ⟨rfl, odd⟩

/-- The power of a negative number that asks for a root: both operands are finite and the exponent
is no whole number. -/
def NeedsRoot (base exponent : Float) : Prop :=
  base.isFinite = true ∧ base < 0 ∧ exponent.isFinite = true ∧ ¬ IsWhole exponent

theorem needsRoot_iff_of_isFinite (finite : base.isFinite = true)
    (bounded : exponent.isFinite = true) :
    (base < 0 && !isInteger exponent) = true ↔ NeedsRoot base exponent := by
  unfold NeedsRoot
  rw [Bool.and_eq_true, decide_eq_true_eq, Bool.not_eq_true', ← Bool.not_eq_true,
    isInteger_iff bounded]
  simp only [finite, bounded, true_and]

theorem NeedsRoot.not_beq_zero (root : NeedsRoot base exponent) : ¬ (base == 0) = true := by
  rw [beq_zero_iff]
  exact (lt_zero_iff.mp root.2.1).2.1

/-- No power that is one by itself asks for a root. -/
theorem NeedsRoot.not_one (root : NeedsRoot base exponent) :
    ¬ ((exponent == 0) = true ∨ base = 1) := by
  rintro (zero | rfl)
  · have none : toRat exponent = (0 : ℤ) := by
      rw [toRat_eq_zero (beq_zero_iff.mp zero), Int.cast_zero]
    exact root.2.2.2 ⟨root.2.2.1, 0, none⟩
  · exact absurd root.2.1 (by decide)

/-- A negative base has no root, whatever is given for its powers. -/
theorem powerBy_of_root {pow : Float → Float → Float} (root : NeedsRoot base exponent) :
    powerBy pow base exponent = nan := by
  have finite := root.1
  have bounded := root.2.2.1
  have asked := (needsRoot_iff_of_isFinite finite bounded).mpr root
  have sizes : ¬ base.isInf = true ∧ ¬ exponent.isInf = true := by
    rw [isInf_iff, isInf_iff]
    exact ⟨((isFinite_iff base).mp finite).ne, ((isFinite_iff exponent).mp bounded).ne⟩
  have one : ¬ (exponent == 0 || base == 1) = true := by
    rw [Bool.or_eq_true, beq_one_iff]
    exact root.not_one
  have undefined : ¬ (base.isNaN || exponent.isNaN) = true := by
    rw [isNaN_of_isFinite finite, isNaN_of_isFinite bounded]
    decide
  rw [powerBy, if_neg one, if_neg undefined, if_neg sizes.1, if_neg sizes.2, finitePower,
    if_neg root.not_beq_zero, if_pos asked]

/-- What the floating-point standard asks of a power. -/
structure IsStandardPower (pow : Float → Float → Float) : Prop where
  /-- Any base to the power zero is one, and so is one to any power. -/
  one : ∀ {base exponent}, (exponent == 0) = true ∨ base = 1 → pow base exponent = 1
  /-- Every other power of what is not a number, or to what is none, is not a number. -/
  undefined : ∀ {base exponent}, ¬ (exponent == 0) = true → base ≠ 1 →
    base.isNaN = true ∨ exponent.isNaN = true → (pow base exponent).isNaN = true
  /-- A negative base has no root. -/
  root : ∀ {base exponent}, NeedsRoot base exponent → (pow base exponent).isNaN = true
  /-- All other powers are numbers. -/
  number : ∀ {base exponent}, base.isNaN = false → exponent.isNaN = false →
    ¬ NeedsRoot base exponent → (pow base exponent).isNaN = false
  /-- An odd power has the sign of its base; the other powers are positive. -/
  sign : ∀ {base exponent}, (pow base exponent).isNaN = false →
    (isNegative (pow base exponent) = true ↔ isNegative base = true ∧ IsOdd exponent)
  /-- A power of zero is zero or infinite. -/
  zero_base : ∀ {base exponent}, (base == 0) = true →
    (0 < exponent → (pow base exponent == 0) = true) ∧
      (exponent < 0 → (pow base exponent).isInf = true)
  /-- A power of an infinite base is infinite or zero. -/
  infinite_base : ∀ {base exponent}, base.isInf = true →
    (0 < exponent → (pow base exponent).isInf = true) ∧
      (exponent < 0 → (pow base exponent == 0) = true)
  /-- A power to infinity is zero or infinite, or one if the base is minus one. -/
  infinite_exponent : ∀ {base exponent}, base.isNaN = false → exponent.isInf = true →
    ((base.abs == 1) = true → pow base exponent = 1) ∧
    (base.abs < 1 → (0 < exponent → (pow base exponent == 0) = true) ∧
      (exponent < 0 → (pow base exponent).isInf = true)) ∧
    (1 < base.abs → (0 < exponent → (pow base exponent).isInf = true) ∧
      (exponent < 0 → (pow base exponent == 0) = true))

/-- Where the power of an expression misses the sign. -/
def LosesSign (base exponent : Float) : Prop :=
  base = -0 ∧ exponent < 0 ∧ IsOdd exponent

theorem LosesSign.beq_zero (loses : LosesSign base exponent) : (base == 0) = true := by
  rw [loses.1]
  decide

variable {pow : Float → Float → Float}

/-- Whether an exponent is an odd whole number. -/
def isOdd (x : Float) : Bool := x.isFinite && isOddInteger x

theorem isOdd_iff : isOdd x = true ↔ IsOdd x := by
  unfold isOdd
  rw [Bool.and_eq_true]
  constructor
  · rintro ⟨finite, odd⟩
    exact (isOddInteger_iff finite).mp odd
  · intro odd
    exact ⟨odd.1, (isOddInteger_iff odd.1).mpr odd⟩

theorem isOdd_of_isInf (infinite : x.isInf = true) : isOdd x = false := by
  rw [isOdd, Bool.and_eq_false_iff, ← Bool.not_eq_true, isFinite_iff, (isInf_iff x).mp infinite]
  exact .inl (lt_irrefl _)

namespace IsStandardPower

variable (standard : IsStandardPower pow)

include standard

theorem isNegative_eq (number : (pow base exponent).isNaN = false) :
    isNegative (pow base exponent) = (isNegative base && isOdd exponent) := by
  rw [Bool.eq_iff_iff, standard.sign number, Bool.and_eq_true, isOdd_iff]

theorem eq_infinite (infinite : (pow base exponent).isInf = true) :
    pow base exponent = if isNegative base && isOdd exponent then -infinity else infinity := by
  rw [← standard.isNegative_eq (isNaN_of_isInf infinite)]
  exact eq_of_isInf infinite

theorem eq_zero (none : (pow base exponent == 0) = true) :
    pow base exponent = if isNegative base && isOdd exponent then -0 else 0 := by
  have number : (pow base exponent).isNaN = false := by
    rw [← Bool.not_eq_true, isNaN_iff, beq_zero_iff.mp none]
    decide
  rw [← standard.isNegative_eq number]
  exact eq_of_beq_zero none

/-- Zero has no infinite power but to a negative exponent. -/
theorem base_ne_zero (infinite : (pow base exponent).isInf = true)
    (number : exponent.isNaN = false) (other : ¬ ((base == 0) = true ∧ exponent < 0)) :
    ¬ (base == 0) = true := by
  intro zero
  by_cases none : (exponent == 0) = true
  · rw [standard.one (.inl none)] at infinite
    exact absurd infinite (by decide)
  rcases lt_zero_or_zero_lt number none with ⟨negative, _⟩ | ⟨positive, _⟩
  · exact other ⟨zero, negative⟩
  · exact not_beq_zero_of_isInf infinite ((standard.zero_base zero).1 positive)

theorem powerOfInfinity_eq (infinite : base.isInf = true) (number : exponent.isNaN = false)
    (nonzero : ¬ (exponent == 0) = true) :
    powerOfInfinity base exponent = pow base exponent := by
  have below := lt_zero_iff_isNegative (isNaN_of_isInf infinite) (not_beq_zero_of_isInf infinite)
  unfold powerOfInfinity
  change (if 0 < exponent then (if isOdd exponent then base else infinity)
    else if isOdd exponent && base < 0 then -0.0 else 0) = _
  rcases lt_zero_or_zero_lt number nonzero with ⟨negative, not_positive⟩ | ⟨positive, _⟩
  · rw [if_neg not_positive, standard.eq_zero ((standard.infinite_base infinite).2 negative),
      Bool.and_comm]
    simp only [below, Bool.decide_eq_true]
    rfl
  · rw [if_pos positive, standard.eq_infinite ((standard.infinite_base infinite).1 positive)]
    cases isOdd exponent with
    | true => simpa using eq_of_isInf infinite
    | false => simp

theorem powerToInfinity_eq (finite : base.isFinite = true) (infinite : exponent.isInf = true) :
    powerToInfinity base exponent = pow base exponent := by
  have size : index base ≤ infinityIndex := ((isFinite_iff base).mp finite).le
  have number := isNaN_of_isFinite finite
  have even := isOdd_of_isInf infinite
  have sides := lt_zero_or_zero_lt (isNaN_of_isInf infinite) (not_beq_zero_of_isInf infinite)
  obtain ⟨unit, small, large⟩ := standard.infinite_exponent number infinite
  have zero (h : (pow base exponent == 0) = true) : pow base exponent = 0 := by
    rw [standard.eq_zero h, even, Bool.and_false]
    rfl
  have infinity (h : (pow base exponent).isInf = true) : pow base exponent = infinity := by
    rw [standard.eq_infinite h, even, Bool.and_false]
    rfl
  unfold powerToInfinity
  rcases lt_trichotomy (index base) unitIndex with below | same | above
  · have less := (abs_lt_one_iff size).mpr below
    rw [if_neg (by rw [abs_beq_one_iff size]; exact below.ne),
      decide_eq_false (mt (one_lt_abs_iff size).mp below.asymm)]
    rcases sides with ⟨negative, not_positive⟩ | ⟨positive, _⟩
    · rw [decide_eq_false not_positive, infinity ((small less).2 negative)]
      rfl
    · rw [decide_eq_true positive, zero ((small less).1 positive)]
      rfl
  · have one := (abs_beq_one_iff size).mpr same
    rw [if_pos one, unit one]
  · have more := (one_lt_abs_iff size).mpr above
    rw [if_neg (by rw [abs_beq_one_iff size]; exact above.ne'), decide_eq_true more]
    rcases sides with ⟨negative, not_positive⟩ | ⟨positive, _⟩
    · rw [decide_eq_false not_positive, zero ((large more).2 negative)]
      rfl
    · rw [decide_eq_true positive, infinity ((large more).1 positive)]
      rfl

/-- Of a zero base only the sign of an infinite power can be missed. -/
theorem finitePower_of_zero (zero : (base == 0) = true) (bounded : exponent.isFinite = true)
    (nonzero : ¬ (exponent == 0) = true) (keeps : ¬ LosesSign base exponent) :
    finitePower pow base exponent = pow base exponent := by
  have parity : isOddInteger exponent = isOdd exponent := by rw [isOdd, bounded, Bool.true_and]
  have itself := eq_of_beq_zero zero
  unfold finitePower
  rw [if_pos zero, parity]
  rcases lt_zero_or_zero_lt (isNaN_of_isFinite bounded) nonzero with
    ⟨negative, _⟩ | ⟨positive, not_negative⟩
  · rw [if_pos negative, standard.eq_infinite ((standard.zero_base zero).2 negative), if_neg]
    rw [Bool.and_eq_true, isOdd_iff]
    rintro ⟨minus, odd⟩
    rw [if_pos minus] at itself
    exact keeps ⟨itself, negative, odd⟩
  · rw [if_neg not_negative, standard.eq_zero ((standard.zero_base zero).1 positive)]
    cases isOdd exponent with
    | true => simpa using itself
    | false => simp

theorem finitePower_eq (finite : base.isFinite = true) (bounded : exponent.isFinite = true)
    (nonzero : ¬ (exponent == 0) = true) (keeps : ¬ LosesSign base exponent) :
    finitePower pow base exponent = pow base exponent := by
  by_cases zero : (base == 0) = true
  · exact standard.finitePower_of_zero zero bounded nonzero keeps
  have below := lt_zero_iff_isNegative (isNaN_of_isFinite finite) zero
  have parity : isOddInteger exponent = isOdd exponent := by rw [isOdd, bounded, Bool.true_and]
  unfold finitePower
  rw [if_neg zero]
  by_cases root : (base < 0 && !isInteger exponent) = true
  · rw [if_pos root]
    rw [needsRoot_iff_of_isFinite finite bounded] at root
    exact (eq_nan_of_isNaN (standard.root root)).symm
  rw [if_neg root]
  dsimp only
  split
  · rename_i infinite
    rw [standard.eq_infinite infinite, parity]
    simp only [below, Bool.decide_eq_true]
  · rfl

/-- The power of an expression is a standard power wherever it does not lose a sign. -/
theorem powerBy_eq (keeps : ¬ LosesSign base exponent) :
    powerBy pow base exponent = pow base exponent := by
  unfold powerBy
  by_cases one : (exponent == 0 || base == 1) = true
  · rw [if_pos one]
    rw [Bool.or_eq_true, beq_one_iff] at one
    exact (standard.one one).symm
  rw [if_neg one]
  obtain ⟨nonzero, other⟩ : ¬ (exponent == 0) = true ∧ base ≠ 1 := by
    rwa [Bool.or_eq_true, beq_one_iff, not_or] at one
  by_cases undefined : (base.isNaN || exponent.isNaN) = true
  · rw [if_pos undefined]
    exact (eq_nan_of_isNaN (standard.undefined nonzero other (by simpa using undefined))).symm
  rw [if_neg undefined]
  obtain ⟨number, number'⟩ : base.isNaN = false ∧ exponent.isNaN = false := by
    rwa [Bool.not_eq_true, Bool.or_eq_false_iff] at undefined
  by_cases infinite : base.isInf = true
  · rw [if_pos infinite]
    exact standard.powerOfInfinity_eq infinite number' nonzero
  rw [if_neg infinite]
  have finite := isFinite_of_not_isInf number infinite
  by_cases infinite' : exponent.isInf = true
  · rw [if_pos infinite']
    exact standard.powerToInfinity_eq finite infinite'
  rw [if_neg infinite']
  exact standard.finitePower_eq finite (isFinite_of_not_isInf number' infinite') nonzero keeps

end IsStandardPower

section Rules

variable (standard : IsStandardPower pow)

include standard

/-- A zero base with a negative exponent gives positive infinity, whatever the sign of the zero. -/
theorem IsStandardPower.powerBy_of_zero (zero : (base == 0) = true) (negative : exponent < 0) :
    powerBy pow base exponent = infinity := by
  have itself := eq_of_beq_zero zero
  by_cases loses : LosesSign base exponent
  · obtain ⟨rfl, _, finite, _⟩ := loses
    have size := lt_zero_iff.mp negative
    unfold powerBy finitePower
    rw [if_neg, if_neg, if_neg (by decide), if_neg, if_pos (by decide), if_pos negative]
    · rw [isInf_iff]
      exact ((isFinite_iff _).mp finite).ne
    · rw [isNaN_of_isFinite finite]
      decide
    · rw [Bool.or_eq_true, beq_zero_iff]
      exact not_or.mpr ⟨size.2.1, by decide⟩
  · rw [standard.powerBy_eq loses, standard.eq_infinite ((standard.zero_base zero).2 negative),
      if_neg]
    rw [Bool.and_eq_true, isOdd_iff]
    rintro ⟨minus, odd⟩
    rw [if_pos minus] at itself
    exact loses ⟨itself, negative, odd⟩

/-- An infinite power of what is neither zero nor infinite is negative where the base is negative
and the exponent odd. -/
theorem IsStandardPower.powerBy_of_isInf (finite : base.isFinite = true)
    (nonzero : ¬ (base == 0) = true) (infinite : (powerBy pow base exponent).isInf = true) :
    powerBy pow base exponent = if base < 0 && isOdd exponent then -infinity else infinity := by
  rw [standard.powerBy_eq (mt LosesSign.beq_zero nonzero)] at infinite ⊢
  rw [standard.eq_infinite infinite]
  simp only [lt_zero_iff_isNegative (isNaN_of_isFinite finite) nonzero, Bool.decide_eq_true]

/-- The power put together behind its handlers is the power of an expression. -/
theorem IsStandardPower.guarded_power_eq (base exponent : Float) :
    Guarded.power pow base exponent = .ok (powerBy pow base exponent) := by
  unfold Guarded.power Refusing.power
  by_cases finite : (base.isFinite && exponent.isFinite) = true
  · rw [if_pos finite]
    rw [Bool.and_eq_true] at finite
    by_cases zero : (base == 0 && exponent < 0) = true
    · rw [if_pos (by rw [zero, Bool.true_or])]
      rw [Bool.and_eq_true, decide_eq_true_eq] at zero
      dsimp only
      rw [if_pos zero.1, standard.powerBy_of_zero zero.1 zero.2]
    by_cases root : (base < 0 && !isInteger exponent) = true
    · rw [if_pos (by rw [root, Bool.or_true])]
      rw [needsRoot_iff_of_isFinite finite.1 finite.2] at root
      dsimp only
      rw [if_neg root.not_beq_zero, powerBy_of_root root]
    rw [if_neg (by rw [Bool.or_eq_true]; exact not_or.mpr ⟨zero, root⟩)]
    rw [Bool.and_eq_true, decide_eq_true_eq] at zero
    have same := standard.powerBy_eq fun loses => zero ⟨loses.beq_zero, loses.2.1⟩
    by_cases infinite : (pow base exponent).isInf = true
    · have nonzero := standard.base_ne_zero infinite (isNaN_of_isFinite finite.2) zero
      rw [if_pos infinite, standard.powerBy_of_isInf finite.1 nonzero (by rwa [same]), isOdd,
        finite.2, Bool.true_and]
    · rw [if_neg infinite, same]
  · rw [if_neg finite, standard.powerBy_eq]
    rintro ⟨rfl, _, bounded, _⟩
    exact finite (by rw [bounded]; decide)

end Rules

/-- An operator put together behind its guards is the operator of an expression. -/
theorem Operator.guarded_eq {lib : Library} (standard : IsStandardPower lib.power) (op : Operator)
    (left right : Float) : op.guarded lib left right = .ok (op.applyBy lib left right) := by
  cases op with
  | plus | minus | times => rfl
  | dividedBy => exact Guarded.quotient_eq left right
  | power => exact standard.guarded_power_eq left right

/-- Where a power that is a number lies among the doubles. -/
def powerIndex (base exponent : Float) : ℕ :=
  if index base = unitIndex then unitIndex
  else if index base = 0 ∨ base.isInf = true ∨ exponent.isInf = true then
    if 0 < exponent ↔ unitIndex < index base then infinityIndex else 0
  else if (toRat exponent).den = 1 then nearest (|toRat base| ^ (toRat exponent).num)
  else unitIndex

/-- Whether a power asks for a root of a negative number. -/
def needsRoot (base exponent : Float) : Bool :=
  base.isFinite && base < 0 && (exponent.isFinite && !isInteger exponent)

theorem needsRoot_iff : needsRoot base exponent = true ↔ NeedsRoot base exponent := by
  unfold needsRoot NeedsRoot
  rw [Bool.and_eq_true, Bool.and_eq_true, Bool.and_eq_true, decide_eq_true_eq, Bool.not_eq_true',
    ← Bool.not_eq_true, and_assoc]
  refine and_congr_right fun _ => and_congr_right fun _ => and_congr_right fun finite => ?_
  rw [isInteger_iff finite]

/-- A standard power. Whether a power is refused depends on rounding only where it is too great;
this one is exact before it is rounded for all whole exponents, and one where it would need a
root. -/
def exactPower (base exponent : Float) : Float :=
  if exponent == 0 || base == 1 then 1
  else if base.isNaN || exponent.isNaN || needsRoot base exponent then nan
  else ofIndex (isNegative base && isOdd exponent) (powerIndex base exponent)

theorem powerIndex_le (base exponent : Float) : powerIndex base exponent ≤ infinityIndex := by
  unfold powerIndex
  split
  · decide
  · split
    · split
      · exact le_rfl
      · exact Nat.zero_le _
    · split
      · exact nearest_le _
      · decide

section Exact

theorem exactPower_of_one (one : (exponent == 0) = true ∨ base = 1) :
    exactPower base exponent = 1 := by
  unfold exactPower
  rw [if_pos (by rwa [Bool.or_eq_true, beq_one_iff])]

variable (other : ¬ ((exponent == 0) = true ∨ base = 1))

include other

theorem exactPower_of_none
    (none : base.isNaN = true ∨ exponent.isNaN = true ∨ NeedsRoot base exponent) :
    exactPower base exponent = nan := by
  unfold exactPower
  rw [if_neg (by rwa [Bool.or_eq_true, beq_one_iff]), if_pos]
  rwa [Bool.or_eq_true, Bool.or_eq_true, needsRoot_iff, or_assoc]

theorem exactPower_of_number
    (number : ¬ (base.isNaN = true ∨ exponent.isNaN = true ∨ NeedsRoot base exponent)) :
    exactPower base exponent =
      ofIndex (isNegative base && isOdd exponent) (powerIndex base exponent) := by
  unfold exactPower
  rw [if_neg (by rwa [Bool.or_eq_true, beq_one_iff]), if_neg]
  rwa [Bool.or_eq_true, Bool.or_eq_true, needsRoot_iff, or_assoc]

end Exact

section Special

variable (number : base.isNaN = false) (apart : index base ≠ unitIndex)
  (special : index base = 0 ∨ base.isInf = true ∨ exponent.isInf = true)

include number apart special

theorem index_exactPower (nonzero : index exponent ≠ 0) (size : index exponent ≤ infinityIndex) :
    index (exactPower base exponent) =
      if 0 < exponent ↔ unitIndex < index base then infinityIndex else 0 := by
  have other : ¬ ((exponent == 0) = true ∨ base = 1) := by
    rw [beq_zero_iff, not_or]
    refine ⟨nonzero, ?_⟩
    rintro rfl
    exact apart rfl
  have number' : exponent.isNaN = false := by rwa [← Bool.not_eq_true, isNaN_iff, not_lt]
  have whole : ¬ NeedsRoot base exponent := by
    rintro ⟨finite, negative, finite', _⟩
    rw [isFinite_iff] at finite finite'
    rw [isInf_iff, isInf_iff] at special
    have := (lt_zero_iff.mp negative).2.1
    omega
  rw [exactPower_of_number other (by rw [number, number']; simpa using whole),
    index_ofIndex (powerIndex_le _ _), powerIndex, if_neg apart, if_pos special]

/-- Where an operand is zero or infinite, a positive power is infinite or zero like its base. -/
theorem index_exactPower_of_pos (positive : 0 < exponent) : index (exactPower base exponent) =
    if unitIndex < index base then infinityIndex else 0 := by
  obtain ⟨_, nonzero, size⟩ := zero_lt_iff.mp positive
  rw [index_exactPower number apart special nonzero size]
  simp only [positive, true_iff]

theorem index_exactPower_of_neg (negative : exponent < 0) : index (exactPower base exponent) =
    if unitIndex < index base then 0 else infinityIndex := by
  obtain ⟨minus, nonzero, size⟩ := lt_zero_iff.mp negative
  have below : ¬ 0 < exponent := by
    rw [zero_lt_iff, minus]
    simp
  rw [index_exactPower number apart special nonzero size]
  simp only [below, false_iff]
  split <;> simp_all

end Special

/-- A power of what is not a number, or to what is none, is not a number. -/
theorem isNaN_exactPower (nonzero : ¬ (exponent == 0) = true) (other : base ≠ 1)
    (undefined : base.isNaN = true ∨ exponent.isNaN = true) :
    (exactPower base exponent).isNaN = true := by
  rw [exactPower_of_none (not_or.mpr ⟨nonzero, other⟩) (by tauto)]
  decide

theorem isNaN_exactPower_of_root (root : NeedsRoot base exponent) :
    (exactPower base exponent).isNaN = true := by
  rw [exactPower_of_none root.not_one (.inr (.inr root))]
  decide

theorem isNaN_exactPower_of_number (number : base.isNaN = false) (number' : exponent.isNaN = false)
    (whole : ¬ NeedsRoot base exponent) : (exactPower base exponent).isNaN = false := by
  by_cases one : (exponent == 0) = true ∨ base = 1
  · rw [exactPower_of_one one]
    decide
  · rw [exactPower_of_number one (by rw [number, number']; simpa using whole),
      ← Bool.not_eq_true, isNaN_iff, index_ofIndex (powerIndex_le _ _), not_lt]
    exact powerIndex_le _ _

/-- One has no sign, and neither zero nor the exponents of one are odd. -/
theorem isNegative_exactPower_iff (number : (exactPower base exponent).isNaN = false) :
    isNegative (exactPower base exponent) = true ↔ isNegative base = true ∧ IsOdd exponent := by
  by_cases one : (exponent == 0) = true ∨ base = 1
  · rw [exactPower_of_one one]
    refine iff_of_false (by decide) ?_
    rintro ⟨minus, _, n, odd⟩
    rcases one with zero | rfl
    · rw [toRat_eq_zero (beq_zero_iff.mp zero)] at odd
      have : (0 : ℤ) = 2 * n + 1 := by exact_mod_cast odd
      omega
    · exact absurd minus (by decide)
  · by_cases none : base.isNaN = true ∨ exponent.isNaN = true ∨ NeedsRoot base exponent
    · rw [exactPower_of_none one none] at number
      exact absurd number (by decide)
    · rw [exactPower_of_number one none, isNegative_ofIndex (powerIndex_le _ _),
        Bool.and_eq_true, isOdd_iff]

theorem exactPower_of_beq_zero (zero : (base == 0) = true) :
    (0 < exponent → (exactPower base exponent == 0) = true) ∧
      (exponent < 0 → (exactPower base exponent).isInf = true) := by
  rw [beq_zero_iff] at zero
  have number : base.isNaN = false := by
    rw [← Bool.not_eq_true, isNaN_iff, zero]
    decide
  have apart : index base ≠ unitIndex := by
    rw [zero]
    decide
  rw [beq_zero_iff, isInf_iff]
  constructor
  · intro positive
    rw [index_exactPower_of_pos number apart (.inl zero) positive, zero]
    decide
  · intro negative
    rw [index_exactPower_of_neg number apart (.inl zero) negative, zero]
    decide

theorem exactPower_of_isInf (infinite : base.isInf = true) :
    (0 < exponent → (exactPower base exponent).isInf = true) ∧
      (exponent < 0 → (exactPower base exponent == 0) = true) := by
  have size := (isInf_iff base).mp infinite
  have number := isNaN_of_isInf infinite
  have apart : index base ≠ unitIndex := by
    rw [size]
    decide
  rw [beq_zero_iff, isInf_iff]
  constructor
  · intro positive
    rw [index_exactPower_of_pos number apart (.inr (.inl infinite)) positive, size]
    decide
  · intro negative
    rw [index_exactPower_of_neg number apart (.inr (.inl infinite)) negative, size]
    decide

/-- To infinity, even minus one has the power one. -/
theorem exactPower_of_unit (number : base.isNaN = false) (unit : index base = unitIndex)
    (infinite : exponent.isInf = true) : exactPower base exponent = 1 := by
  by_cases one : (exponent == 0) = true ∨ base = 1
  · exact exactPower_of_one one
  have whole : ¬ (base.isNaN = true ∨ exponent.isNaN = true ∨ NeedsRoot base exponent) := by
    rw [number, isNaN_of_isInf infinite]
    rintro (⟨⟨⟩⟩ | ⟨⟨⟩⟩ | ⟨_, _, finite, _⟩)
    rw [isFinite_iff, (isInf_iff exponent).mp infinite] at finite
    exact lt_irrefl _ finite
  rw [exactPower_of_number one whole, isOdd_of_isInf infinite, Bool.and_false, powerIndex,
    if_pos unit, one_eq]

theorem exactPower_to_isInf (number : base.isNaN = false) (infinite : exponent.isInf = true) :
    ((base.abs == 1) = true → exactPower base exponent = 1) ∧
    (base.abs < 1 → (0 < exponent → (exactPower base exponent == 0) = true) ∧
      (exponent < 0 → (exactPower base exponent).isInf = true)) ∧
    (1 < base.abs → (0 < exponent → (exactPower base exponent).isInf = true) ∧
      (exponent < 0 → (exactPower base exponent == 0) = true)) := by
  have size : index base ≤ infinityIndex := by rwa [← Bool.not_eq_true, isNaN_iff, not_lt] at number
  have special : index base = 0 ∨ base.isInf = true ∨ exponent.isInf = true := .inr (.inr infinite)
  rw [abs_beq_one_iff size, abs_lt_one_iff size, one_lt_abs_iff size, isInf_iff, beq_zero_iff]
  refine ⟨fun unit => exactPower_of_unit number unit infinite, fun below => ⟨fun positive => ?_,
    fun negative => ?_⟩, fun above => ⟨fun positive => ?_, fun negative => ?_⟩⟩
  · rw [index_exactPower_of_pos number below.ne special positive, if_neg below.asymm]
  · rw [index_exactPower_of_neg number below.ne special negative, if_neg below.asymm]
  · rw [index_exactPower_of_pos number above.ne' special positive, if_pos above]
  · rw [index_exactPower_of_neg number above.ne' special negative, if_pos above]

theorem isStandardPower_exactPower : IsStandardPower exactPower where
  one := exactPower_of_one
  undefined := isNaN_exactPower
  root := isNaN_exactPower_of_root
  number := isNaN_exactPower_of_number
  sign := isNegative_exactPower_iff
  zero_base := exactPower_of_beq_zero
  infinite_base := exactPower_of_isInf
  infinite_exponent := exactPower_to_isInf

namespace Library

/-- A library that is right where its functions are simplest: its logarithms at one, the others at
zero. -/
def simplest : Library where
  power := exactPower
  sine x := x
  cosine x := 1 + x
  tangent x := x
  decimalLogarithm x := x - 1
  naturalLogarithm x := x - 1

theorem handsOn_simplest : simplest.HandsOn where
  power {base exponent} undefined := by
    by_cases one : (exponent == 0) = true ∨ base = 1
    · rw [if_pos (by rwa [Bool.or_eq_true, beq_one_iff])]
      exact exactPower_of_one one
    · rw [if_neg (by rwa [Bool.or_eq_true, beq_one_iff])]
      exact exactPower_of_none one (undefined.imp_right .inl)
  sine := rfl
  cosine := rfl
  tangent := rfl
  decimalLogarithm := ⟨rfl, rfl⟩
  naturalLogarithm := ⟨rfl, rfl⟩

end Library

/-- A power put together behind its handlers always comes out. It is the power of the standard
unless a sign is lost; one that is too great has the sign that the standard gives it, a zero base
has a positive infinite power to every negative exponent, and a negative base has no root. -/
theorem power_spec (standard : IsStandardPower pow) (base exponent : Float) :
    Guarded.power pow base exponent = .ok (powerBy pow base exponent) ∧
    (¬ LosesSign base exponent → powerBy pow base exponent = pow base exponent) ∧
    (LosesSign base exponent →
      powerBy pow base exponent = infinity ∧ pow base exponent = -infinity) ∧
    ((base == 0) = true → exponent < 0 → powerBy pow base exponent = infinity) ∧
    (base.isFinite = true → ¬ (base == 0) = true → (powerBy pow base exponent).isInf = true →
      (powerBy pow base exponent = -infinity ↔ base < 0 ∧ IsOdd exponent)) ∧
    (NeedsRoot base exponent → (powerBy pow base exponent).isNaN = true) := by
  refine ⟨standard.guarded_power_eq base exponent, standard.powerBy_eq, ?_,
    standard.powerBy_of_zero, ?_, ?_⟩
  · rintro ⟨rfl, negative, odd⟩
    have zero : ((-0 : Float) == 0) = true := by decide
    refine ⟨standard.powerBy_of_zero zero negative, ?_⟩
    rw [standard.eq_infinite ((standard.zero_base zero).2 negative), isOdd_iff.mpr odd]
    rfl
  · intro finite nonzero infinite
    have apart : ∀ negative : Bool,
        (if negative then -infinity else infinity) = -infinity ↔ negative = true := by decide
    rw [standard.powerBy_of_isInf finite nonzero infinite, apart, Bool.and_eq_true,
      decide_eq_true_eq, isOdd_iff]
  · intro root
    rw [powerBy_of_root root]
    rfl

/-- The power of minus two to the exponent 1025 is too great, and negative. -/
theorem power_of_minus_two :
    IsStandardPower exactPower ∧
      Guarded.power exactPower (-2) 1025 = .ok (powerBy exactPower (-2) 1025) ∧
      powerBy exactPower (-2) 1025 = exactPower (-2) 1025 ∧
      powerBy exactPower (-2) 1025 = -infinity := by
  have values : toRat (-2) = -2 ∧ toRat 1025 = 1025 := by decide +kernel
  have size : powerIndex (-2) 1025 = infinityIndex := by
    unfold powerIndex
    rw [if_neg (by decide), if_neg (by decide), values.1, values.2, if_pos (by decide)]
    refine nearest_eq_infinityIndex ?_
    change (2 : ℚ) ^ (1024 : ℤ) ≤ |-2| ^ (1025 : ℤ)
    rw [abs_neg, abs_two]
    exact zpow_le_zpow_right₀ one_le_two (by decide)
  have infinite : exactPower (-2) 1025 = ofIndex true infinityIndex := by
    rw [exactPower_of_number (by decide) (by rw [← needsRoot_iff]; decide), size]
    rfl
  obtain ⟨answer, kept, _, _, overflow, _⟩ := power_spec isStandardPower_exactPower (-2) 1025
  have value := kept fun loses => absurd loses.1 (by decide)
  refine ⟨isStandardPower_exactPower, answer, value, ?_⟩
  exact (overflow (by decide) (by decide) (by rw [value, infinite]; decide)).mpr
    ⟨by decide, isOdd_iff.mp (by decide)⟩

/-- A negative odd power of negative zero is negative infinity, and comes out as positive
infinity. -/
theorem power_of_negative_zero :
    Operator.power.apply (-0) (-1) = infinity ∧
      ∀ pow, IsStandardPower pow → pow (-0) (-1) = -infinity := by
  refine ⟨rfl, fun pow standard => ?_⟩
  have odd : IsOdd (-1) := isOdd_iff.mp (by decide)
  have infinite : (pow (-0) (-1)).isInf = true := (standard.zero_base (by decide)).2 (by decide)
  rw [standard.eq_infinite infinite, isOdd_iff.mpr odd]
  rfl

end Keypad
