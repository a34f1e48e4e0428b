import Keypad.Proofs.Bits
import Keypad.Proofs.Nearest

/-!
# Rounding bit by bit

The model of the operations on doubles rounds a significand by dropping its last bits one after
the other. It remembers of what was dropped only whether the bit dropped last was set and whether
any bit before it was, and that is enough to tell the nearest natural number (`Truncates`). So a
sign, a significand and an exponent of any size are packed as the double nearest to their exact
value, a carry into the next exponent and the doubles without a leading bit included.
-/

namespace Keypad.Double

open Float.Model.UnpackedFloat
open Float.Model (Format UnpackedFloat)

variable {x : ℚ}

/-- What is kept of a nonnegative number when it is cut off at the point: the whole part, whether
the rest reaches one half, and whether it is anything but nothing or one half. -/
structure Truncates (em : ExtendedMantissa) (x : ℚ) : Prop where
  nonneg : 0 ≤ x
  whole : em.mantissa = ⌊x⌋₊
  /-- Whether the rest reaches one half. -/
  half : em.roundBit = true ↔ 1 / 2 ≤ Int.fract x
  /-- Whether the rest is beside these two. -/
  beside : em.stickyBit = true ↔ Int.fract x ≠ 0 ∧ Int.fract x ≠ 1 / 2

theorem truncates_natCast (m : ℕ) :
    Truncates (ExtendedMantissa.ofMantissaAndAccuracy m .exact) m where
  nonneg := Nat.cast_nonneg m
  whole := (Nat.floor_natCast m).symm
  half := by simp [ExtendedMantissa.ofMantissaAndAccuracy]
  beside := by simp [ExtendedMantissa.ofMantissaAndAccuracy]

/-- The rest of one half of a number. -/
theorem fract_half (h : 0 ≤ x) :
    Int.fract (x / 2) = ((⌊x⌋₊ % 2 : ℕ) + Int.fract x) / 2 := by
  have parts := floor_add_fract_of_nonneg h
  have nonneg := Int.fract_nonneg x
  have small := Int.fract_lt_one x
  have cut : ((⌊x⌋₊ / 2 : ℕ) : ℚ) * 2 + (⌊x⌋₊ % 2 : ℕ) = ⌊x⌋₊ := by
    exact_mod_cast Nat.div_add_mod' ⌊x⌋₊ 2
  have bit : ((⌊x⌋₊ % 2 : ℕ) : ℚ) ≤ 1 := by
    exact_mod_cast Nat.lt_succ_iff.mp (Nat.mod_lt ⌊x⌋₊ two_pos)
  have bit' : (0 : ℚ) ≤ (⌊x⌋₊ % 2 : ℕ) := Nat.cast_nonneg _
  rw [Int.fract_eq_iff]
  refine ⟨by linarith, by linarith, ((⌊x⌋₊ / 2 : ℕ) : ℤ), ?_⟩
  rw [Int.cast_natCast]
  linarith

/-- The two bits that are remembered tell whether the rest is anything. -/
theorem half_or_beside_iff {rest : ℚ} :
    1 / 2 ≤ rest ∨ rest ≠ 0 ∧ rest ≠ 1 / 2 ↔ rest ≠ 0 := by
  constructor
  · rintro (reaches | other)
    · exact (half_pos one_pos |>.trans_le reaches).ne'
    · exact other.1
  · intro some
    by_cases middle : rest = 1 / 2
    · exact .inl middle.ge
    · exact .inr ⟨some, middle⟩

/-- With a bit before it the rest is halved to nothing or to one half only if it is nothing. -/
theorem beside_halved_iff {bit : ℕ} {rest : ℚ} (nonneg : 0 ≤ rest) (small : rest < 1)
    (binary : bit = 0 ∨ bit = 1) :
    (bit + rest) / 2 ≠ 0 ∧ (bit + rest) / 2 ≠ 1 / 2 ↔ rest ≠ 0 := by
  rcases binary with rfl | rfl
  · rw [Nat.cast_zero, zero_add]
    refine ⟨fun other none => other.1 (by linarith), fun some => ⟨?_, ?_⟩⟩
    · exact div_ne_zero some two_ne_zero
    · intro same
      linarith
  · rw [Nat.cast_one]
    refine ⟨fun other none => other.2 (by linarith), fun some => ⟨?_, ?_⟩⟩
    · intro same
      linarith
    · exact fun same => some (by linarith)

/-- To drop one bit is to halve. -/
theorem Truncates.shiftRightOne {em : ExtendedMantissa} (h : Truncates em x) :
    Truncates em.shiftRightOne (x / 2) := by
  have rest := fract_half h.nonneg
  have nonneg := Int.fract_nonneg x
  have small := Int.fract_lt_one x
  have binary := Nat.mod_two_eq_zero_or_one ⌊x⌋₊
  refine ⟨by linarith [h.nonneg], ?_, ?_, ?_⟩
  · rw [ExtendedMantissa.shiftRightOne, h.whole, Nat.floor_div_ofNat]
  · rw [ExtendedMantissa.shiftRightOne, h.whole, rest]
    rcases binary with even | odd
    · simp only [even, bne_self_eq_false, Bool.false_eq_true, Nat.cast_zero, zero_add, false_iff]
      linarith
    · simp only [odd, Nat.cast_one]
      exact iff_of_true (by decide) (by linarith)
  · rw [ExtendedMantissa.shiftRightOne, rest, Bool.or_eq_true, h.half, h.beside,
      half_or_beside_iff, beside_halved_iff nonneg small binary]

/-- To drop bits is to divide by a power of two. -/
theorem Truncates.shiftRight {em : ExtendedMantissa} (h : Truncates em x) (n : ℕ) :
    Truncates (em >>> n) (x / 2 ^ n) := by
  change Truncates (n.repeat ExtendedMantissa.shiftRightOne em) _
  induction n with
  | zero => simpa [Nat.repeat] using h
  | succ n ih =>
      rw [Nat.repeat, pow_succ, ← div_div]
      exact ih.shiftRightOne

/-- What is kept is enough to find the nearest natural number. -/
theorem Truncates.roundedMantissa {em : ExtendedMantissa} (h : Truncates em x) :
    em.roundedMantissa = roundEven x := by
  obtain ⟨mantissa, roundBit, stickyBit⟩ := em
  obtain ⟨_, whole, half, beside⟩ := h
  dsimp only at whole half beside
  subst whole
  unfold roundEven
  cases roundBit with
  | false =>
      have less : Int.fract x < 1 / 2 := not_le.mp fun reaches => by simpa using half.mpr reaches
      rw [if_pos (.inl less)]
      cases stickyBit <;> rfl
  | true =>
      have reaches : 1 / 2 ≤ Int.fract x := half.mp rfl
      simp only [not_lt.mpr reaches, false_or]
      cases stickyBit with
      | true =>
          have other := (beside.mp rfl).2
          rw [if_neg fun tie => other tie.1]
          rfl
      | false =>
          have middle : Int.fract x = 1 / 2 := by
            by_contra other
            have none : Int.fract x ≠ 0 := (half_pos one_pos |>.trans_le reaches).ne'
            simpa using beside.mpr ⟨none, other⟩
          change ⌊x⌋₊ + ⌊x⌋₊ % 2 = _
          rcases Nat.mod_two_eq_zero_or_one ⌊x⌋₊ with even | odd
          · rw [if_pos ⟨middle, Nat.even_iff.mpr even⟩, even, add_zero]
          · have uneven : ¬ Even ⌊x⌋₊ := by
              rw [Nat.even_iff]
              omega
            rw [if_neg fun tie => uneven tie.2, odd]

/-- Whether a sign is a minus. -/
def isMinus : Sign → Bool
  | .negative => true
  | .positive => false

/-- The sign bit decides on which side of the middle a bit pattern lies. -/
theorem decide_signBit_le (s : Sign) {k : ℕ} (h : k < signBit) :
    decide (signBit ≤ s.toBitVec.toNat * signBit + k) = isMinus s := by
  cases s with
  | negative =>
      have one : Sign.negative.toBitVec.toNat = 1 := rfl
      rw [one]
      exact decide_eq_true (by omega)
  | positive =>
      have zero : Sign.positive.toBitVec.toNat = 0 := rfl
      rw [zero]
      exact decide_eq_false (by omega)

/-- The double of an unpacked one. -/
def packed (f : UnpackedFloat) : Float := Float.ofModel (Float.Model.pack f)

variable {s : Sign} {m : ℕ} {e : ℤ}

/-- The double of a sign, an exponent field and a mantissa field. -/
theorem packed_of_components {f : UnpackedFloat} (field : BitVec 11) (mantissa : BitVec 52)
    (h : pack Format.binary64 f = packComponents Format.binary64 s field mantissa)
    (bound : field.toNat * binade + mantissa.toNat ≤ infinityIndex) :
    packed f = ofIndex (isMinus s) (field.toNat * binade + mantissa.toNat) := by
  have size := index_lt_signBit bound
  have bits := toNat_packComponents s field mantissa
  rw [← h] at bits
  apply eq_of_index
  · rw [isNegative_ofIndex bound]
    change decide (signBit ≤ (pack Format.binary64 f).toNat) = isMinus s
    rw [bits, decide_signBit_le s size]
  · rw [index_ofIndex bound]
    change (pack Format.binary64 f).toNat % signBit = _
    rw [bits, Nat.mul_add_mod_self_right, Nat.mod_eq_of_lt size]

theorem packed_zero (s : Sign) : packed (.zero s) = ofIndex (isMinus s) 0 :=
  packed_of_components 0#11 0#52 rfl (Nat.zero_le _)

section Finite

variable (positive : 0 < m) (least : -1074 ≤ e) (most : m < 2 * binade)

/-- How the model packs: it looks at the exponent first, and then for the leading bit. -/
theorem pack_finite (s : Sign) (e : ℤ) :
    pack Format.binary64 (.finite s m e positive) =
      if 2048 ≤ (e + 1023 + 52).toNat + 1 then packedInfinity Format.binary64 s
      else if m.log2 + 1 = 53 then
        packComponents Format.binary64 s (BitVec.ofNat 11 (e + 1023 + 52).toNat)
          (BitVec.ofNat 52 m)
      else packComponents Format.binary64 s 0#11 (BitVec.ofNat 52 m) := rfl

include positive most in
theorem log2_succ_eq_iff : m.log2 + 1 = 53 ↔ binade ≤ m := by
  have log : m.log2 < 53 := (Nat.log2_lt positive.ne').mpr most
  have reaches : 52 ≤ m.log2 ↔ 2 ^ 52 ≤ m := Nat.le_log2 positive.ne'
  change _ ↔ 2 ^ 52 ≤ m
  omega

/-- An exponent beyond the last one is packed as infinity. -/
theorem packed_beyond (beyond : 972 ≤ e) : packed (.finite s m e positive) =
    ofIndex (isMinus s) infinityIndex := by
  have parts := pack_finite positive s e
  rw [if_pos (by omega)] at parts
  have whole : (-1#11).toNat * binade + (0#52).toNat = infinityIndex := by decide
  have spelt := packed_of_components (-1#11) 0#52 parts whole.le
  rwa [whole] at spelt

include most

/-- A significand without its leading bit. -/
theorem packed_subnormal (small : m < binade) :
    packed (.finite s m (-1074) positive) = ofIndex (isMinus s) m := by
  have parts := pack_finite positive s (-1074)
  have leading := mt (log2_succ_eq_iff positive most).mp (not_le.mpr small)
  rw [if_neg (by decide), if_neg leading] at parts
  have mantissa : (BitVec.ofNat 52 m).toNat = m := by
    rw [BitVec.toNat_ofNat]
    exact Nat.mod_eq_of_lt small
  have whole : (0#11).toNat * binade + m = m := Nat.zero_add m
  have index : m ≤ infinityIndex := small.le.trans (by decide)
  have spelt := packed_of_components _ _ parts (by rwa [mantissa, whole])
  rwa [mantissa, whole] at spelt

include least

theorem indexOf_le (bounded : e < 972) : indexOf (e + 1074).toNat m ≤ infinityIndex := by
  unfold infinityIndex indexOf
  have exponent : (e + 1074).toNat * binade ≤ 2045 * binade := Nat.mul_le_mul_right _ (by omega)
  omega

/-- A significand with its leading bit. -/
theorem packed_normal (bounded : e < 972) (normal : binade ≤ m) :
    packed (.finite s m e positive) = ofIndex (isMinus s) (indexOf (e + 1074).toNat m) := by
  have size : binade = 2 ^ 52 := rfl
  have parts := pack_finite positive s e
  rw [if_neg (by omega), if_pos ((log2_succ_eq_iff positive most).mpr normal)] at parts
  have field : (BitVec.ofNat 11 (e + 1023 + 52).toNat).toNat = (e + 1074).toNat + 1 := by
    rw [BitVec.toNat_ofNat]
    omega
  have mantissa : (BitVec.ofNat 52 m).toNat = m - binade := by
    rw [BitVec.toNat_ofNat]
    omega
  have whole : ((e + 1074).toNat + 1) * binade + (m - binade) = indexOf (e + 1074).toNat m := by
    unfold indexOf
    rw [Nat.succ_mul]
    omega
  have index := indexOf_le least most bounded
  have spelt := packed_of_components _ _ parts (by rwa [field, mantissa, whole])
  rwa [field, mantissa, whole] at spelt

/-- An exponent and a significand that fit a double are packed as the index that they make, unless
they are beyond the doubles. -/
theorem packed_finite (full : binade ≤ m ∨ e = -1074) :
    packed (.finite s m e positive) =
      ofIndex (isMinus s) (min infinityIndex (indexOf (e + 1074).toNat m)) := by
  rcases le_or_gt 972 e with beyond | bounded
  · have index : infinityIndex ≤ indexOf (e + 1074).toNat m := by
      unfold infinityIndex indexOf
      have exponent : 2046 * binade ≤ (e + 1074).toNat * binade := Nat.mul_le_mul_right _ (by omega)
      have significand : binade ≤ m := full.resolve_right (by omega)
      omega
    rw [packed_beyond positive beyond, min_eq_left index]
  · rw [min_eq_right (indexOf_le least most bounded)]
    rcases le_or_gt binade m with normal | small
    · exact packed_normal positive least most bounded normal
    · obtain rfl : e = -1074 := full.resolve_left (not_le.mpr small)
      rw [packed_subnormal positive most small]
      simp [indexOf]

end Finite

/-- The same where the significand may be zero. -/
theorem packed_significand (least : -1074 ≤ e) (most : m < 2 * binade)
    (full : binade ≤ m ∨ e = -1074) :
    packed (if h : m = 0 then .zero s else .finite s m e (Nat.pos_of_ne_zero h)) =
      ofIndex (isMinus s) (min infinityIndex (indexOf (e + 1074).toNat m)) := by
  split
  · rename_i zero
    have positive : 0 < binade := by decide
    obtain rfl : e = -1074 := full.resolve_left (by omega)
    rw [packed_zero, zero]
    rfl
  · rename_i nonzero
    exact packed_finite (Nat.pos_of_ne_zero nonzero) least most full

/-- The unit of the last place is the exponent that the model aims at. -/
theorem targetExponent_eq (h : m ≠ 0) :
    Format.binary64.targetExponent (Float.Model.totalExponent m e) = unitOf (m * 2 ^ e) := by
  have positive : (0 : ℚ) < m * 2 ^ e := by positivity
  have log : Int.log 2 ((m : ℚ) * 2 ^ e) = m.log2 + e := by
    apply log_eq_of_between Nat.one_lt_two positive
    · have below : ((2 ^ m.log2 : ℕ) : ℚ) ≤ m := Nat.cast_le.mpr (Nat.log2_self_le h)
      rw [Nat.cast_ofNat, zpow_add₀ two_ne_zero]
      push_cast at below
      rw [zpow_natCast]
      gcongr
    · have above : (m : ℚ) < ((2 ^ (m.log2 + 1) : ℕ) : ℚ) := Nat.cast_lt.mpr Nat.lt_log2_self
      rw [Nat.cast_ofNat, add_right_comm, zpow_add₀ two_ne_zero]
      push_cast at above
      rw [← Nat.cast_succ, zpow_natCast]
      gcongr
  change max ((m.log2 : ℤ) + 1 + e - 53) (-1074) = max (-1074) (Int.log 2 ((m : ℚ) * 2 ^ e) - 52)
  rw [log, max_comm]
  congr 1
  ring

theorem shiftToTargetExponent_eq {k : ℕ}
    (amount : (Format.binary64.targetExponent (Float.Model.totalExponent m e) - e).toNat = k) :
    shiftToTargetExponent Format.binary64 m e .exact =
      (ExtendedMantissa.ofMantissaAndAccuracy m .exact >>> k, e + k) := by
  rw [← amount]
  rfl

/-- Nothing more is dropped from a significand that fits. -/
theorem shiftToTargetExponent_of_lt (least : -1074 ≤ e) (most : m < 2 * binade) :
    (shiftToTargetExponent Format.binary64 m e .exact).1.mantissa = m ∧
      (shiftToTargetExponent Format.binary64 m e .exact).2 = e := by
  have log : m.log2 < 53 := by
    rcases eq_or_ne m 0 with rfl | nonzero
    · decide
    · exact (Nat.log2_lt nonzero).mpr most
  have amount : (Format.binary64.targetExponent (Float.Model.totalExponent m e) - e).toNat = 0 := by
    change (max ((m.log2 : ℤ) + 1 + e - 53) (-1074) - e).toNat = 0
    omega
  rw [shiftToTargetExponent_eq amount]
  exact ⟨rfl, add_zero e⟩

/-- A significand that has just become too long loses its last bit, which is zero. -/
theorem shiftToTargetExponent_carry (least : -1074 ≤ e) :
    (shiftToTargetExponent Format.binary64 (2 * binade) e .exact).1.mantissa = binade ∧
      (shiftToTargetExponent Format.binary64 (2 * binade) e .exact).2 = e + 1 := by
  have log : (2 * binade).log2 = 53 := by decide
  have amount : (Format.binary64.targetExponent
      (Float.Model.totalExponent (2 * binade) e) - e).toNat = 1 := by
    change (max (((2 * binade).log2 : ℤ) + 1 + e - 53) (-1074) - e).toNat = 1
    rw [log]
    omega
  rw [shiftToTargetExponent_eq amount]
  exact ⟨Nat.mul_div_cancel_left binade two_pos, rfl⟩

/-- Rounding with no exponent to spare gives the nearest double. -/
theorem packed_roundWithAccuracy (h : m ≠ 0) (fine : e ≤ unitOf (m * 2 ^ e)) :
    packed (roundWithAccuracy Format.binary64 s m e .exact) =
      ofIndex (isMinus s) (nearest (m * 2 ^ e)) := by
  have positive : (0 : ℚ) < m * 2 ^ e := by positivity
  have least := unitOf_ge ((m : ℚ) * 2 ^ e)
  have most := roundEven_inUnits_le positive
  have full : binade ≤ roundEven (inUnits (m * 2 ^ e)) ∨ unitOf ((m : ℚ) * 2 ^ e) = -1074 := by
    rcases le_roundEven_inUnits positive with large | small
    · exact .inl large
    · exact .inr (by omega)
  obtain ⟨k, hk⟩ := Int.le.dest fine
  have amount : (Format.binary64.targetExponent (Float.Model.totalExponent m e) - e).toNat = k := by
    rw [targetExponent_eq h]
    omega
  have scaled : (m : ℚ) / 2 ^ k = inUnits (m * 2 ^ e) := by
    rw [inUnits, ← hk, mul_assoc, ← zpow_add₀ two_ne_zero, div_eq_mul_inv, ← zpow_natCast,
      ← zpow_neg]
    congr 2
    ring
  have rounded := ((truncates_natCast m).shiftRight k).roundedMantissa
  rw [scaled] at rounded
  rw [nearest_of_pos positive]
  unfold roundWithAccuracy
  rw [shiftToTargetExponent_eq amount]
  dsimp only
  rw [rounded, hk]
  rcases most.eq_or_lt with carry | fits
  · -- The carry makes a significand of its own at the next exponent, with the same index.
    obtain ⟨significand, exponent⟩ := shiftToTargetExponent_carry least
    have count : (unitOf ((m : ℚ) * 2 ^ e) + 1 + 1074).toNat =
        (unitOf ((m : ℚ) * 2 ^ e) + 1074).toNat + 1 := by omega
    have same : indexOf (unitOf ((m : ℚ) * 2 ^ e) + 1 + 1074).toNat binade =
        indexOf (unitOf ((m : ℚ) * 2 ^ e) + 1074).toNat (2 * binade) := by
      unfold indexOf
      rw [count]
      ring
    rw [carry, ← same]
    generalize shiftToTargetExponent Format.binary64 (2 * binade) _ .exact = shifted at *
    rw [significand, exponent]
    exact packed_significand (by omega) (by decide) (.inl le_rfl)
  · obtain ⟨significand, exponent⟩ := shiftToTargetExponent_of_lt least fits
    generalize shiftToTargetExponent Format.binary64 _ _ .exact = shifted at *
    rw [significand, exponent]
    exact packed_significand least fits full

theorem decreaseExponent_eq {k : ℕ} {target : ℤ} (amount : (e - target).toNat = k) :
    decreaseExponent m e target = (m * 2 ^ k, e - k) := by
  rw [← amount, ← Nat.shiftLeft_eq]
  rfl

/-- Where the exponent is too great at first, zeros are put behind the significand. -/
theorem packed_round (h : m ≠ 0) :
    packed (round Format.binary64 s m e) = ofIndex (isMinus s) (nearest (m * 2 ^ e)) := by
  obtain ⟨k, hk⟩ : ∃ k : ℕ, (e - unitOf (m * 2 ^ e)).toNat = k := ⟨_, rfl⟩
  have value : ((m * 2 ^ k : ℕ) : ℚ) * 2 ^ (e - k) = m * 2 ^ e := by
    rw [Nat.cast_mul, Nat.cast_pow, Nat.cast_ofNat, mul_assoc, ← zpow_natCast,
      ← zpow_add₀ two_ne_zero, add_sub_cancel]
  have longer : round Format.binary64 s m e =
      roundWithAccuracy Format.binary64 s (m * 2 ^ k) (e - k) .exact := by
    unfold UnpackedFloat.round
    rw [targetExponent_eq h]
    dsimp only
    rw [decreaseExponent_eq hk]
  rw [longer, packed_roundWithAccuracy (by positivity) (by rw [value]; omega), value]

/-- The double nearest to a rational number; zero has no sign. -/
def ofRat (x : ℚ) : Float := ofIndex (x < 0) (nearest |x|)

/-- A whole number of units of any size gives the double nearest to it. -/
theorem packed_normalize (z e : ℤ) :
    packed (UnpackedFloat.normalize Format.binary64 z e .positive) = ofRat (z * 2 ^ e) := by
  have power : (0 : ℚ) < 2 ^ e := by positivity
  unfold UnpackedFloat.normalize ofRat
  rw [abs_mul, abs_of_pos power]
  rcases lt_trichotomy z 0 with negative | rfl | positive
  · have sign : (z : ℚ) * 2 ^ e < 0 := mul_neg_of_neg_of_pos (Int.cast_lt_zero.mpr negative) power
    have size : |(z : ℚ)| = ((-z).toNat : ℕ) := by
      rw [abs_of_neg (Int.cast_lt_zero.mpr negative)]
      exact_mod_cast (Int.toNat_of_nonneg (by omega : 0 ≤ -z)).symm
    rw [Int.compare_eq_lt.mpr negative, size, decide_eq_true sign]
    exact packed_round (by omega)
  · rw [Int.cast_zero, abs_zero, zero_mul, nearest_zero, decide_eq_false (lt_irrefl _)]
    exact packed_zero .positive
  · have sign : ¬ (z : ℚ) * 2 ^ e < 0 := (mul_pos (Int.cast_pos.mpr positive) power).not_gt
    have size : |(z : ℚ)| = (z.toNat : ℕ) := by
      rw [abs_of_pos (Int.cast_pos.mpr positive)]
      exact_mod_cast (Int.toNat_of_nonneg positive.le).symm
    rw [Int.compare_eq_gt.mpr positive, size, decide_eq_false sign]
    exact packed_round (by omega)

end Keypad.Double
