import Keypad.Proofs.Sums
import Keypad.Expr.Arithmetic

/-!
# Comparisons of doubles

A comparison of two doubles is one of their signs and their indices. Only what the arithmetic of
an expression compares is said here: a double beside zero and beside one, and the absolute value
of a double beside one. What is not a number is neither less than nor equal to anything; there is
one such value, as there is one infinity of each sign.
-/

namespace Keypad.Double

open Float.Model.UnpackedFloat
open Float.Model (Format UnpackedFloat)

variable {a b v : Float}

theorem lt_iff_unpack : a < b ↔ (unpack Format.binary64 a.toBits.toBitVec).lt
    (unpack Format.binary64 b.toBits.toBitVec) = true := decide_eq_true_iff

theorem eq_nan_of_isNaN (undefined : v.isNaN = true) : v = Arithmetic.nan := by
  rw [Float.isNaN_eq_decide_eq_nan, decide_eq_true_eq] at undefined
  exact undefined

theorem isNaN_of_isFinite (finite : v.isFinite = true) : v.isNaN = false := by
  rw [isFinite_iff] at finite
  rw [← Bool.not_eq_true, isNaN_iff]
  exact finite.asymm

theorem isNaN_of_isInf (infinite : v.isInf = true) : v.isNaN = false := by
  rw [isInf_iff] at infinite
  rw [← Bool.not_eq_true, isNaN_iff, infinite]
  exact lt_irrefl _

/-- A number that is not infinite is finite. -/
theorem isFinite_of_not_isInf (number : v.isNaN = false) (finite : ¬ v.isInf = true) :
    v.isFinite = true := by
  rw [← Bool.not_eq_true, isNaN_iff] at number
  rw [isInf_iff] at finite
  rw [isFinite_iff]
  omega

/-- An infinite double is known by its sign. -/
theorem eq_of_isInf (infinite : v.isInf = true) :
    v = if isNegative v then -Arithmetic.infinity else Arithmetic.infinity := by
  have size := (isInf_iff v).mp infinite
  conv_lhs => rw [← ofIndex_index size.le, size]
  cases isNegative v with
  | true => decide
  | false => decide

theorem packed_infinity (s : Sign) : packed (.infinity s) = ofIndex (isMinus s) infinityIndex :=
  packed_of_components (-1#11) 0#52 rfl (by decide)

theorem beq_zero_iff : (v == 0) = true ↔ index v = 0 := by
  constructor
  · intro same
    obtain ⟨_, _, rfl | ⟨rfl, _⟩ | ⟨rfl, _⟩⟩ := Float.beq_iff_ne_nan_and_eq.mp same
    all_goals rfl
  · intro zero
    exact beq_of_index_eq_zero zero rfl

theorem not_beq_zero_of_isInf (infinite : v.isInf = true) : ¬ (v == 0) = true := by
  rw [beq_zero_iff, (isInf_iff v).mp infinite]
  decide

/-- A zero is known by its sign. -/
theorem eq_of_beq_zero (zero : (v == 0) = true) : v = if isNegative v then -0 else 0 := by
  have size := beq_zero_iff.mp zero
  conv_lhs => rw [← ofIndex_index (size ▸ Nat.zero_le _ : index v ≤ infinityIndex), size]
  cases isNegative v with
  | true => decide
  | false => decide

/-- What lies below zero is a negative number other than negative zero. -/
theorem lt_zero_iff :
    v < 0 ↔ isNegative v = true ∧ index v ≠ 0 ∧ index v ≤ infinityIndex := by
  have zero : unpack Format.binary64 (0 : Float).toBits.toBitVec = .zero .positive := rfl
  rw [lt_iff_unpack, zero, isNegative_eq]
  rcases unpack_cases v with ⟨size, parts⟩ | ⟨nonzero, bounded, _, parts⟩ | ⟨size, parts⟩ |
    ⟨size, parts⟩
  · rw [parts]
    exact iff_of_false (by cases signOf v.toBits.toBitVec <;> decide) (by omega)
  · rw [parts]
    cases signOf v.toBits.toBitVec with
    | negative => exact iff_of_true rfl ⟨rfl, nonzero, bounded.le⟩
    | positive => exact iff_of_false Bool.false_ne_true (by simp [isMinus])
  · rw [parts]
    cases signOf v.toBits.toBitVec with
    | negative => exact iff_of_true rfl ⟨rfl, size ▸ by decide, size.le⟩
    | positive => exact iff_of_false Bool.false_ne_true (by simp [isMinus])
  · rw [parts]
    exact iff_of_false Bool.false_ne_true (by omega)

/-- Only positive infinity is infinite and not below zero. -/
theorem eq_infinity (infinite : v.isInf = true) (above : ¬ v < 0) : v = Arithmetic.infinity := by
  have size := (isInf_iff v).mp infinite
  rw [eq_of_isInf infinite, if_neg]
  exact fun minus => above (lt_zero_iff.mpr ⟨minus, size ▸ by decide, size.le⟩)

/-- What lies above zero is a positive number other than zero. -/
theorem zero_lt_iff :
    0 < v ↔ isNegative v = false ∧ index v ≠ 0 ∧ index v ≤ infinityIndex := by
  have zero : unpack Format.binary64 (0 : Float).toBits.toBitVec = .zero .positive := rfl
  rw [lt_iff_unpack, zero, isNegative_eq]
  rcases unpack_cases v with ⟨size, parts⟩ | ⟨nonzero, bounded, _, parts⟩ | ⟨size, parts⟩ |
    ⟨size, parts⟩
  · rw [parts]
    exact iff_of_false (by cases signOf v.toBits.toBitVec <;> decide) (by omega)
  · rw [parts]
    cases signOf v.toBits.toBitVec with
    | negative => exact iff_of_false Bool.false_ne_true (by simp [isMinus])
    | positive => exact iff_of_true rfl ⟨rfl, nonzero, bounded.le⟩
  · rw [parts]
    cases signOf v.toBits.toBitVec with
    | negative => exact iff_of_false Bool.false_ne_true (by simp [isMinus])
    | positive => exact iff_of_true rfl ⟨rfl, size ▸ by decide, size.le⟩
  · rw [parts]
    exact iff_of_false Bool.false_ne_true (by omega)

/-- A number other than zero is below zero if it is negative. -/
theorem lt_zero_iff_isNegative (number : v.isNaN = false) (nonzero : ¬ (v == 0) = true) :
    v < 0 ↔ isNegative v = true := by
  rw [← Bool.not_eq_true, isNaN_iff, not_lt] at number
  rw [beq_zero_iff] at nonzero
  rw [lt_zero_iff]
  exact ⟨fun below => below.1, fun minus => ⟨minus, nonzero, number⟩⟩

/-- A number other than zero lies on one side of zero. -/
theorem lt_zero_or_zero_lt (number : v.isNaN = false) (nonzero : ¬ (v == 0) = true) :
    v < 0 ∧ ¬ 0 < v ∨ 0 < v ∧ ¬ v < 0 := by
  rw [← Bool.not_eq_true, isNaN_iff, not_lt] at number
  rw [beq_zero_iff] at nonzero
  rw [lt_zero_iff, zero_lt_iff]
  cases isNegative v with
  | true => simp [number, nonzero]
  | false => simp [number, nonzero]

/-- Nothing is equal to one but one. -/
theorem beq_one_iff : (v == 1) = true ↔ v = 1 := by
  rw [Float.beq_iff_ne_nan_and_eq]
  have one : (1 : Float) ≠ 0 ∧ (1 : Float) ≠ -0 ∧ (1 : Float) ≠ Float.nan := by decide
  constructor
  · rintro ⟨_, _, same | ⟨_, other⟩ | ⟨_, other⟩⟩
    · exact same
    · exact absurd other one.2.1
    · exact absurd other one.1
  · rintro rfl
    exact ⟨one.2.2, one.2.2, .inl rfl⟩

/-- Where one lies among the doubles. -/
def unitIndex : ℕ := 1023 * binade

theorem one_eq : (1 : Float) = ofIndex false unitIndex := by decide

theorem signOf_of_positive (h : isNegative a = false) : signOf a.toBits.toBitVec = .positive := by
  rw [isNegative_eq] at h
  generalize signOf a.toBits.toBitVec = s at h
  cases s with
  | positive => rfl
  | negative => cases h

/-- Exponents are compared first, and significands where they are the same. -/
theorem compare_parts_eq_lt_iff {i j : ℕ} :
    (compare (exponent i) (exponent j)).then (compare (significand i) (significand j)) = .lt ↔
      i < j := by
  rw [Ordering.then_eq_lt, compare_lt_iff_lt, compare_eq_iff_eq, compare_lt_iff_lt]
  unfold exponent significand binade
  split <;> split <;> omega

/-- Positive doubles lie like their indices. -/
theorem lt_iff_index_lt (pa : isNegative a = false) (pb : isNegative b = false)
    (na : index a ≤ infinityIndex) (nb : index b ≤ infinityIndex) :
    a < b ↔ index a < index b := by
  rw [lt_iff_unpack]
  have upper := unpack_cases b
  rw [signOf_of_positive pb] at upper
  have lower := unpack_cases a
  rw [signOf_of_positive pa] at lower
  rcases lower with ⟨ia, parts⟩ | ⟨ia, fa, _, parts⟩ | ⟨ia, parts⟩ | ⟨ia, _⟩
  · rcases upper with ⟨ib, parts'⟩ | ⟨ib, fb, _, parts'⟩ | ⟨ib, parts'⟩ | ⟨ib, _⟩
    · rw [parts, parts']
      exact iff_of_false Bool.false_ne_true (by omega)
    · rw [parts, parts']
      exact iff_of_true rfl (by omega)
    · rw [parts, parts']
      exact iff_of_true rfl (by rw [ia, ib]; decide)
    · omega
  · rcases upper with ⟨ib, parts'⟩ | ⟨ib, fb, _, parts'⟩ | ⟨ib, parts'⟩ | ⟨ib, _⟩
    · rw [parts, parts']
      exact iff_of_false Bool.false_ne_true (by omega)
    · rw [parts, parts', ← compare_parts_eq_lt_iff]
      exact beq_iff_eq.trans (Option.some.injEq _ _).to_iff
    · rw [parts, parts']
      exact iff_of_true rfl (by omega)
    · omega
  · rcases upper with ⟨ib, parts'⟩ | ⟨ib, fb, _, parts'⟩ | ⟨ib, parts'⟩ | ⟨ib, _⟩
    · rw [parts, parts']
      exact iff_of_false Bool.false_ne_true (by omega)
    · rw [parts, parts']
      exact iff_of_false Bool.false_ne_true (by omega)
    · rw [parts, parts']
      exact iff_of_false Bool.false_ne_true (by omega)
    · omega
  · omega

theorem abs_unpack (b : BitVec 64) :
    (unpack Format.binary64 b).abs = unpack Format.binary64 (withSign .positive b) := by
  unfold UnpackedFloat.unpack withSign
  simp only [unpackSign_packComponents, unpackExponent_packComponents,
    unpackMantissa_packComponents, Sign.ofBitVec_toBitVec]
  split
  · split <;> rfl
  · split
    · split <;> rfl
    · rfl

/-- An absolute value is the positive double with the same index. -/
theorem abs_eq_ofIndex (number : index v ≤ infinityIndex) : v.abs = ofIndex false (index v) := by
  have kept : IsNumber (withSign .positive v.toBits.toBitVec) := isNumber_withSign.mpr number
  have bits : v.abs.toBits.toNat = index v := by
    change (pack Format.binary64 (unpack Format.binary64 v.toBits.toBitVec).abs).toNat = _
    rw [abs_unpack, pack_unpack_of_isNumber kept, toNat_withSign]
    exact Nat.zero_add _
  refine Float.toBits_inj.mp (UInt64.toNat_inj.mp ?_)
  rw [bits, toNat_toBits_ofIndex number]
  rfl

section Abs

variable (number : index v ≤ infinityIndex)

include number

theorem abs_beq_one_iff : (v.abs == 1) = true ↔ index v = unitIndex := by
  rw [beq_one_iff, abs_eq_ofIndex number, one_eq]
  refine ⟨fun same => ?_, fun same => by rw [same]⟩
  have sizes := congrArg index same
  rwa [index_ofIndex number, index_ofIndex (by decide)] at sizes

theorem one_lt_abs_iff : 1 < v.abs ↔ unitIndex < index v := by
  have bound : unitIndex ≤ infinityIndex := by decide
  rw [one_eq, abs_eq_ofIndex number, lt_iff_index_lt (isNegative_ofIndex bound _)
    (isNegative_ofIndex number _) (by rwa [index_ofIndex bound]) (by rwa [index_ofIndex number]),
    index_ofIndex bound, index_ofIndex number]

theorem abs_lt_one_iff : v.abs < 1 ↔ index v < unitIndex := by
  have bound : unitIndex ≤ infinityIndex := by decide
  rw [one_eq, abs_eq_ofIndex number, lt_iff_index_lt (isNegative_ofIndex number _)
    (isNegative_ofIndex bound _) (by rwa [index_ofIndex number]) (by rwa [index_ofIndex bound]),
    index_ofIndex bound, index_ofIndex number]

end Abs

end Keypad.Double
