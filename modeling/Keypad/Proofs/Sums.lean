import Keypad.Proofs.BitRounding
import Keypad.Proofs.ResultDigits

/-!
# Sums of doubles

The sum of two finite doubles is the double nearest to their exact sum, and so it is with their
difference: `toRat_add` and `toRat_sub` say it of the exact values, where zero has no sign. How
far a sum may be from the exact one follows from no other double being closer
(`abs_rounded_sub_le`). A double that is added and taken away again leaves that error behind,
rounded once more (`toRat_add_sub`). What is infinite stays as it is whatever finite is added.
-/

namespace Keypad.Double

open Float.Model.UnpackedFloat
open Float.Model (Format UnpackedFloat)

variable {x : ℚ} {s : Sign} {m : ℕ} {e : ℤ}

variable {a b v : Float}

theorem packed_unpack (h : index v ≤ infinityIndex) :
    packed (unpack Format.binary64 v.toBits.toBitVec) = v := by
  have bits := pack_unpack_of_isNumber (b := v.toBits.toBitVec) h
  exact Float.toBits_inj.mp (congrArg UInt64.ofBitVec bits)

theorem isNegative_eq (v : Float) : isNegative v = isMinus (signOf v.toBits.toBitVec) := by
  have bits := toNat_eq v.toBits.toBitVec
  change v.toBits.toNat = _ at bits
  unfold isNegative
  rw [bits, decide_signBit_le _ (Nat.mod_lt _ (by decide))]

/-- The exact value of a double by its sign, its significand and its exponent. -/
theorem toRat_eq (v : Float) :
    toRat v = ((signOf v.toBits.toBitVec).apply (significand (index v)) : ℤ) *
      2 ^ exponent (index v) := by
  unfold toRat
  rw [isNegative_eq, value_eq]
  cases signOf v.toBits.toBitVec with
  | negative => simp [isMinus, Sign.apply]
  | positive => simp [isMinus, Sign.apply]

theorem toNat_mantissa (v : Float) :
    (@unpackMantissa Format.binary64 v.toBits.toBitVec).toNat = index v % binade := by
  rw [toNat_unpackMantissa]
  change _ = v.toBits.toBitVec.toNat % signBit % binade
  unfold signBit binade
  omega

theorem toNat_exponent (v : Float) :
    (@unpackExponent Format.binary64 v.toBits.toBitVec).toNat = index v / binade := by
  rw [toNat_unpackExponent]
  change _ = v.toBits.toBitVec.toNat % signBit / binade
  unfold signBit binade
  omega

/-- The parts of a double below the least one with a leading bit. -/
theorem parts_of_lt (small : index v < binade) :
    (@unpackMantissa Format.binary64 v.toBits.toBitVec).toNat = significand (index v) ∧
      ((@unpackExponent Format.binary64 v.toBits.toBitVec).toNat : ℤ) - (1023 + 52) + 1 =
        exponent (index v) := by
  rw [toNat_mantissa, toNat_exponent, significand, exponent, if_pos small, if_pos small,
    Nat.mod_eq_of_lt small, Nat.div_eq_of_lt small]
  exact ⟨rfl, rfl⟩

/-- The parts of a double with a leading bit, which is put before the mantissa. -/
theorem parts_of_not_lt (large : ¬ index v < binade) :
    (1#1 ++ @unpackMantissa Format.binary64 v.toBits.toBitVec).toNat = significand (index v) ∧
      ((@unpackExponent Format.binary64 v.toBits.toBitVec).toNat : ℤ) - (1023 + 52) =
        exponent (index v) := by
  rw [BitVec.toNat_append, ← Nat.shiftLeft_add_eq_or_of_lt (BitVec.isLt _), toNat_mantissa,
    toNat_exponent, significand, exponent, if_neg large, if_neg large]
  exact ⟨rfl, rfl⟩

theorem exponent_eq_ones_iff_le (v : Float) :
    @unpackExponent Format.binary64 v.toBits.toBitVec = -1#11 ↔ infinityIndex ≤ index v := by
  have all : index v < 2048 * binade := Nat.mod_lt _ (by decide)
  rw [exponent_eq_ones_iff, toNat_exponent]
  unfold infinityIndex binade at *
  omega

theorem exponent_eq_zero_iff_lt (v : Float) :
    @unpackExponent Format.binary64 v.toBits.toBitVec = 0#11 ↔ index v < binade := by
  rw [← BitVec.toNat_inj, toNat_exponent]
  exact Nat.div_eq_zero_iff_lt (by decide)

/-- From infinity on a double unpacks to infinity, or to the value that is not a number. -/
theorem unpack_of_infinityIndex_le (large : infinityIndex ≤ index v) :
    unpack Format.binary64 v.toBits.toBitVec =
      if index v = infinityIndex then .infinity (signOf v.toBits.toBitVec) else .notANumber := by
  have ones := (exponent_eq_ones_iff_le v).mpr large
  have infinite : index v = infinityIndex ↔ _ := isInfinite_iff v.toBits.toBitVec
  unfold UnpackedFloat.unpack
  dsimp only
  rw [if_pos ones]
  exact if_congr (infinite.trans (and_iff_right ones)).symm rfl rfl

/-- Below the least double with a leading bit the mantissa is the significand. -/
theorem unpack_of_lt_binade (small : index v < binade) :
    (index v = 0 ∧ unpack Format.binary64 v.toBits.toBitVec = .zero (signOf v.toBits.toBitVec)) ∨
    (index v ≠ 0 ∧ ∃ positive, unpack Format.binary64 v.toBits.toBitVec =
      .finite (signOf v.toBits.toBitVec) (significand (index v)) (exponent (index v)) positive) := by
  have ones := mt (exponent_eq_ones_iff_le v).mp (small.trans (by decide)).not_ge
  have mantissa : @unpackMantissa Format.binary64 v.toBits.toBitVec = 0#52 ↔ index v = 0 := by
    rw [mantissa_eq_zero_iff, toNat_mantissa, Nat.mod_eq_of_lt small]
  obtain ⟨whole, place⟩ := parts_of_lt small
  unfold UnpackedFloat.unpack
  dsimp only
  rw [if_neg ones, if_pos ((exponent_eq_zero_iff_lt v).mpr small), ← whole, ← place]
  split
  · rename_i none
    exact .inl ⟨mantissa.mp none, rfl⟩
  · rename_i some
    exact .inr ⟨mt mantissa.mpr some, Nat.pos_of_ne_zero (mt (mantissa_eq_zero_iff _).mpr some), rfl⟩

/-- The other finite doubles have a leading bit. -/
theorem unpack_of_finite (large : ¬ index v < binade) (finite : index v < infinityIndex) :
    ∃ positive, unpack Format.binary64 v.toBits.toBitVec =
      .finite (signOf v.toBits.toBitVec) (significand (index v)) (exponent (index v)) positive := by
  have ones := mt (exponent_eq_ones_iff_le v).mp finite.not_ge
  obtain ⟨whole, place⟩ := parts_of_not_lt large
  have positive : 0 < (1#1 ++ @unpackMantissa Format.binary64 v.toBits.toBitVec).toNat := by
    rw [whole, significand, if_neg large]
    exact Nat.add_pos_left (by decide) _
  unfold UnpackedFloat.unpack
  dsimp only
  rw [if_neg ones, if_neg (mt (exponent_eq_zero_iff_lt v).mp large), ← whole, ← place]
  exact ⟨positive, rfl⟩

/-- What a double unpacks to: zero, its significand and its exponent, infinity, each beside its
sign, or the value that is not a number. -/
theorem unpack_cases (v : Float) :
    (index v = 0 ∧ unpack Format.binary64 v.toBits.toBitVec = .zero (signOf v.toBits.toBitVec)) ∨
    (index v ≠ 0 ∧ index v < infinityIndex ∧ ∃ positive,
      unpack Format.binary64 v.toBits.toBitVec = .finite (signOf v.toBits.toBitVec)
        (significand (index v)) (exponent (index v)) positive) ∨
    (index v = infinityIndex ∧
      unpack Format.binary64 v.toBits.toBitVec = .infinity (signOf v.toBits.toBitVec)) ∨
    (infinityIndex < index v ∧ unpack Format.binary64 v.toBits.toBitVec = .notANumber) := by
  by_cases finite : index v < infinityIndex
  · by_cases small : index v < binade
    · rcases unpack_of_lt_binade small with zero | ⟨nonzero, parts⟩
      · exact .inl zero
      · exact .inr (.inl ⟨nonzero, finite, parts⟩)
    · refine .inr (.inl ⟨fun zero => small ?_, finite, unpack_of_finite small finite⟩)
      rw [zero]
      decide
  · have large := Nat.not_lt.mp finite
    rw [unpack_of_infinityIndex_le large]
    by_cases infinite : index v = infinityIndex
    · exact .inr (.inr (.inl ⟨infinite, if_pos infinite⟩))
    · exact .inr (.inr (.inr ⟨lt_of_le_of_ne large (Ne.symm infinite), if_neg infinite⟩))

/-- A finite double unpacks to zero, or to its sign, its significand and its exponent. -/
theorem unpack_finite (finite : index v < infinityIndex) :
    (∃ s, unpack Format.binary64 v.toBits.toBitVec = .zero s ∧ index v = 0) ∨
      ∃ s m e positive, unpack Format.binary64 v.toBits.toBitVec = .finite s m e positive ∧
        index v ≠ 0 ∧ toRat v = (s.apply m : ℤ) * 2 ^ e := by
  rcases unpack_cases v with ⟨zero, parts⟩ | ⟨nonzero, _, positive, parts⟩ | ⟨size, _⟩ | ⟨size, _⟩
  · exact .inl ⟨_, parts, zero⟩
  · exact .inr ⟨_, _, _, positive, parts, nonzero, toRat_eq v⟩
  · omega
  · omega

@[simp]
theorem index_ofRat (x : ℚ) : index (ofRat x) = nearest |x| := index_ofIndex (nearest_le _) _

/-- A double other than zero is nearest to itself. -/
theorem ofRat_toRat (h : index v ≠ 0) (finite : index v ≤ infinityIndex) :
    ofRat (toRat v) = v := by
  have positive := value_pos h
  have sign : decide (toRat v < 0) = isNegative v := by
    unfold toRat
    cases isNegative v with
    | true => exact decide_eq_true (by simpa using positive)
    | false => exact decide_eq_false (by simpa using positive.le)
  rw [ofRat, sign, abs_toRat, nearest_value finite, ofIndex_index finite]

/-- The exact value of the double nearest to a rational number. -/
def rounded (x : ℚ) : ℚ := toRat (ofRat x)

theorem rounded_of_neg (h : x < 0) : rounded x = -value (nearest |x|) := by
  rw [rounded, toRat, index_ofRat, ofRat, isNegative_ofIndex (nearest_le _),
    if_pos (decide_eq_true h)]

theorem rounded_of_nonneg (h : 0 ≤ x) : rounded x = value (nearest |x|) := by
  rw [rounded, toRat, index_ofRat, ofRat, isNegative_ofIndex (nearest_le _),
    if_neg (by simpa using h)]

theorem toRat_eq_zero (h : index v = 0) : toRat v = 0 := by
  rw [← abs_eq_zero, abs_toRat, h, value_zero]

theorem toRat_eq_zero_iff : toRat v = 0 ↔ index v = 0 := by
  refine ⟨fun none => ?_, toRat_eq_zero⟩
  by_contra nonzero
  have positive := value_pos nonzero
  rw [← abs_toRat, none, abs_zero] at positive
  exact lt_irrefl 0 positive

/-- A double is its own rounding. -/
theorem rounded_toRat (finite : index v ≤ infinityIndex) : rounded (toRat v) = toRat v := by
  rcases eq_or_ne (index v) 0 with zero | nonzero
  · rw [toRat_eq_zero zero, rounded_of_nonneg le_rfl, abs_zero, nearest_zero, value_zero]
  · rw [rounded, ofRat_toRat nonzero finite]

/-- No double is closer to a number than the one that it is rounded to. -/
theorem abs_rounded_sub_le (finite : nearest |x| < infinityIndex) (w : Float) :
    |rounded x - x| ≤ |toRat w - x| := by
  have closest := abs_value_nearest_sub_le_abs (abs_nonneg x) finite (index w)
  rw [← abs_toRat] at closest
  have distance : |rounded x - x| = abs (value (nearest |x|) - |x|) := by
    rcases lt_or_ge x 0 with negative | nonneg
    · rw [rounded_of_neg negative, abs_of_neg negative, ← abs_neg]
      congr 1
      ring
    · rw [rounded_of_nonneg nonneg, abs_of_nonneg nonneg]
  calc |rounded x - x| = abs (value (nearest |x|) - |x|) := distance
    _ ≤ abs (|toRat w| - |x|) := closest
    _ ≤ |toRat w - x| := abs_abs_sub_abs_le _ _

/-- Zeros behind a significand do not change the value. -/
theorem apply_decreaseExponent {target : ℤ} (le : target ≤ e) :
    ((s.apply (decreaseExponent m e target).1 : ℤ) : ℚ) * 2 ^ target =
      (s.apply m : ℤ) * 2 ^ e := by
  obtain ⟨k, rfl⟩ := Int.le.dest le
  rw [decreaseExponent_eq (k := k) (by omega), zpow_add₀ two_ne_zero, zpow_natCast]
  cases s with
  | negative =>
      simp only [Sign.apply]
      push_cast
      ring
  | positive =>
      simp only [Sign.apply]
      push_cast
      ring

/-- The sum of two finite doubles is the double nearest to their exact sum. Only two zeros may
have a zero with a sign. -/
theorem add_cases (ha : index a < infinityIndex) (hb : index b < infinityIndex) :
    (index a = 0 ∧ index b = 0 ∧ index (a + b) = 0) ∨ a + b = ofRat (toRat a + toRat b) := by
  have sum : a + b = packed (UnpackedFloat.add Format.binary64
      (unpack Format.binary64 a.toBits.toBitVec) (unpack Format.binary64 b.toBits.toBitVec)) := rfl
  rcases unpack_finite ha with ⟨s, left, za⟩ | ⟨s, m, e, hm, left, na, va⟩
  · rcases unpack_finite hb with ⟨t, right, zb⟩ | ⟨t, n, d, hn, right, nb, vb⟩
    · refine .inl ⟨za, zb, ?_⟩
      rw [sum, left, right, UnpackedFloat.add]
      split <;> rw [packed_zero, index_ofIndex (Nat.zero_le _)]
    · refine .inr ?_
      rw [sum, left, toRat_eq_zero za, zero_add, ofRat_toRat nb hb.le, right]
      change packed (.finite t n d hn) = b
      rw [← right, packed_unpack hb.le]
  · rcases unpack_finite hb with ⟨t, right, zb⟩ | ⟨t, n, d, hn, right, nb, vb⟩
    · refine .inr ?_
      rw [sum, right, toRat_eq_zero zb, add_zero, ofRat_toRat na ha.le, left]
      change packed (.finite s m e hm) = a
      rw [← left, packed_unpack ha.le]
    · refine .inr ?_
      rw [sum, left, right, va, vb, ← apply_decreaseExponent (min_le_left e d),
        ← apply_decreaseExponent (min_le_right e d), ← add_mul, ← Int.cast_add]
      exact packed_normalize _ _

section Finite

variable (ha : index a < infinityIndex) (hb : index b < infinityIndex)

include ha hb

theorem index_add : index (a + b) = nearest |toRat a + toRat b| := by
  rcases add_cases ha hb with ⟨za, zb, zero⟩ | sum
  · rw [zero, toRat_eq_zero za, toRat_eq_zero zb, add_zero, abs_zero, nearest_zero]
  · rw [sum, index_ofRat]

/-- The sum of finite doubles is their exact sum, rounded once. -/
theorem toRat_add : toRat (a + b) = rounded (toRat a + toRat b) := by
  rcases add_cases ha hb with ⟨za, zb, zero⟩ | sum
  · rw [toRat_eq_zero zero, toRat_eq_zero za, toRat_eq_zero zb, add_zero,
      rounded_of_nonneg le_rfl, abs_zero, nearest_zero, value_zero]
  · rw [sum, rounded]

end Finite

/-- To subtract is to add the negation. -/
theorem sub_eq_add_neg_packed {b : Float} (h : index b ≤ infinityIndex) : a - b = a + -b := by
  have number : IsNumber (withSign (-signOf b.toBits.toBitVec) b.toBits.toBitVec) :=
    isNumber_withSign.mpr h
  have negation : unpack Format.binary64 (-b).toBits.toBitVec =
      (unpack Format.binary64 b.toBits.toBitVec).neg := by
    change unpack Format.binary64 (pack Format.binary64
      (unpack Format.binary64 b.toBits.toBitVec).neg) = _
    rw [neg_unpack, pack_unpack_of_isNumber number]
  change packed (UnpackedFloat.sub Format.binary64 (unpack Format.binary64 a.toBits.toBitVec)
      (unpack Format.binary64 b.toBits.toBitVec)) =
    packed (UnpackedFloat.add Format.binary64 (unpack Format.binary64 a.toBits.toBitVec)
      (unpack Format.binary64 (-b).toBits.toBitVec))
  rw [negation, sub_eq_add_neg_unpacked]

theorem toRat_neg (h : index v ≤ infinityIndex) : toRat (-v) = -toRat v := by
  unfold toRat
  rw [isNegative_neg h, index_neg h]
  cases isNegative v with
  | true => simp
  | false => simp

theorem index_sub (ha : index a < infinityIndex) (hb : index b < infinityIndex) :
    index (a - b) = nearest |toRat a - toRat b| := by
  rw [sub_eq_add_neg_packed hb.le, index_add ha (by rwa [index_neg hb.le]), toRat_neg hb.le,
    sub_eq_add_neg]

/-- The difference of finite doubles is their exact difference, rounded once. -/
theorem toRat_sub (ha : index a < infinityIndex) (hb : index b < infinityIndex) :
    toRat (a - b) = rounded (toRat a - toRat b) := by
  rw [sub_eq_add_neg_packed hb.le, toRat_add ha (by rwa [index_neg hb.le]), toRat_neg hb.le,
    sub_eq_add_neg]

/-- Nothing finite makes a difference to an infinite double. -/
theorem add_of_isInf (ha : a.isInf = true) (hb : b.isFinite = true) : a + b = a := by
  have absorbed : ∀ x y : UnpackedFloat, x.isInf = true → y.isFinite = true →
      UnpackedFloat.add Format.binary64 x y = x := by
    intro x y infinite finite
    cases x with
    | infinity s =>
        cases y with
        | infinity | notANumber => cases finite
        | zero | finite => rfl
    | notANumber | zero | finite => cases infinite
  calc a + b
    _ = packed (UnpackedFloat.add Format.binary64 (unpack Format.binary64 a.toBits.toBitVec)
          (unpack Format.binary64 b.toBits.toBitVec)) := rfl
    _ = packed (unpack Format.binary64 a.toBits.toBitVec) :=
        congrArg packed (absorbed _ _ ha hb)
    _ = a := packed_unpack ((isInf_iff a).mp ha).le

theorem sub_of_isInf (ha : a.isInf = true) (hb : b.isFinite = true) : a - b = a := by
  rw [isFinite_iff] at hb
  rw [sub_eq_add_neg_packed hb.le]
  exact add_of_isInf ha ((isFinite_iff _).mpr (by rwa [index_neg hb.le]))

theorem beq_self_of_number (number : v.isNaN = false) : (v == v) = true := by
  have other : v ≠ Float.nan := by
    rintro rfl
    exact absurd number (by decide)
  exact Float.beq_iff_ne_nan_and_eq.mpr ⟨other, other, .inl rfl⟩

/-- A zero is equal to a zero, whatever their signs. -/
theorem beq_of_index_eq_zero (ha : index a = 0) (hb : index b = 0) : (a == b) = true := by
  have zero {v : Float} (h : index v = 0) : v = ofIndex (isNegative v) 0 := by
    rw [← h, ofIndex_index (h ▸ Nat.zero_le _)]
  rw [zero ha, zero hb]
  generalize isNegative a = s
  generalize isNegative b = t
  revert s t
  decide

/-- Finite doubles are equal exactly if their values are. -/
theorem beq_iff_toRat_eq (ha : a.isFinite = true) (hb : b.isFinite = true) :
    (a == b) = true ↔ toRat a = toRat b := by
  rw [isFinite_iff] at ha hb
  have zeros : toRat 0 = 0 ∧ toRat (-0) = 0 :=
    ⟨toRat_eq_zero rfl, toRat_eq_zero rfl⟩
  constructor
  · intro equal
    obtain ⟨_, _, rfl | ⟨rfl, rfl⟩ | ⟨rfl, rfl⟩⟩ := Float.beq_iff_ne_nan_and_eq.mp equal
    · rfl
    · rw [zeros.1, zeros.2]
    · rw [zeros.1, zeros.2]
  · intro same
    rcases eq_or_ne (index a) 0 with zero | nonzero
    · exact beq_of_index_eq_zero zero
        (toRat_eq_zero_iff.mp (same.symm.trans (toRat_eq_zero zero)))
    · have other : index b ≠ 0 := fun zero =>
        nonzero (toRat_eq_zero_iff.mp (same.trans (toRat_eq_zero zero)))
      rw [← ofRat_toRat nonzero ha.le, same, ofRat_toRat other hb.le]
      apply beq_self_of_number
      rw [← Bool.not_eq_true, isNaN_iff]
      exact hb.asymm

/-- A number is equal to its sum with a zero. -/
theorem add_beq_of_index_eq_zero (number : a.isNaN = false) (zero : index b = 0) :
    (a + b == a) = true := by
  have finite : index b < infinityIndex := zero ▸ (by decide)
  have kind := number
  rw [← Bool.not_eq_true, isNaN_iff, not_lt] at kind
  rcases kind.eq_or_lt with infinite | ha
  · rw [add_of_isInf ((isInf_iff a).mpr infinite) ((isFinite_iff b).mpr finite)]
    exact beq_self_of_number number
  · rcases eq_or_ne (index a) 0 with za | nonzero
    · refine beq_of_index_eq_zero ?_ za
      rw [index_add ha finite, toRat_eq_zero za, toRat_eq_zero zero, add_zero, abs_zero,
        nearest_zero]
    · rcases add_cases ha finite with ⟨za, _⟩ | sum
      · exact absurd za nonzero
      · rw [sum, toRat_eq_zero zero, add_zero, ofRat_toRat nonzero ha.le]
        exact beq_self_of_number number

theorem sub_beq_of_index_eq_zero (number : a.isNaN = false) (zero : index b = 0) :
    (a - b == a) = true := by
  have within : index b ≤ infinityIndex := zero ▸ Nat.zero_le _
  rw [sub_eq_add_neg_packed within]
  exact add_beq_of_index_eq_zero number (by rwa [index_neg within])

/-- By how much the sum of two doubles misses their exact sum. -/
def sumError (a b : Float) : ℚ := toRat (a + b) - (toRat a + toRat b)

theorem toRat_add_sub_toRat (a b : Float) : toRat (a + b) - toRat b = toRat a + sumError a b := by
  rw [sumError]
  ring

section Sum

variable (hb : index b < infinityIndex) (sum : index (a + b) < infinityIndex)

include hb sum

/-- No double misses the exact sum by less. -/
theorem abs_sumError_le (ha : index a < infinityIndex) (w : Float) :
    |sumError a b| ≤ |toRat w - (toRat a + toRat b)| := by
  rw [sumError, toRat_add ha hb]
  rw [index_add ha hb] at sum
  exact abs_rounded_sub_le sum w

/-- To add a double and to take it away again is to add the error of the sum. -/
theorem toRat_add_sub : toRat (a + b - b) = rounded (toRat a + sumError a b) := by
  rw [toRat_sub sum hb, toRat_add_sub_toRat]

/-- The two roundings together are off by at most twice the error of the sum. -/
theorem abs_toRat_add_sub_le (back : index (a + b - b) < infinityIndex) :
    |toRat (a + b - b) - toRat a| ≤ 2 * |sumError a b| := by
  rw [index_sub sum hb, toRat_add_sub_toRat] at back
  have closest := abs_rounded_sub_le back a
  rw [← toRat_add_sub hb sum] at closest
  calc |toRat (a + b - b) - toRat a|
    _ = abs (toRat (a + b - b) - (toRat a + sumError a b) + sumError a b) := by
        congr 1
        ring
    _ ≤ |toRat (a + b - b) - (toRat a + sumError a b)| + |sumError a b| := abs_add_le _ _
    _ ≤ |toRat a - (toRat a + sumError a b)| + |sumError a b| := by gcongr
    _ = 2 * |sumError a b| := by
        rw [sub_add_cancel_left, abs_neg]
        ring

end Sum

/-- If the exact sum is a double, nothing is lost. -/
theorem add_sub_of_exact {s : Float} (ha : index a < infinityIndex) (hb : index b < infinityIndex)
    (hs : index s < infinityIndex) (exact : toRat s = toRat a + toRat b) :
    index (a + b - b) < infinityIndex ∧ toRat (a + b - b) = toRat a := by
  have sum : index (a + b) < infinityIndex := by
    rwa [index_add ha hb, ← exact, abs_toRat, nearest_value hs.le]
  have value : toRat (a + b) = toRat a + toRat b := by
    rw [toRat_add ha hb, ← exact, rounded_toRat hs.le]
  constructor
  · rwa [index_sub sum hb, value, add_sub_cancel_right, abs_toRat, nearest_value ha.le]
  · rw [toRat_sub sum hb, value, add_sub_cancel_right, rounded_toRat ha.le]

end Keypad.Double
