import Mathlib
import Keypad.Number.Double

/-!
# Doubles as bit patterns

A double is a sign and an index. Whether it is finite can be told from the index, negation
changes the sign alone, and a double is found again from its sign and its index. The one
value that is not a number has one bit pattern, so these laws have few exceptions.

Of the operations only this is said here: a sum or a difference is a number if both operands are
and one of them is finite, and all of them hand on an operand that is not a number.
-/

namespace Keypad.Double

open Float.Model.UnpackedFloat
open Float.Model (Format UnpackedFloat)

theorem toNat_unpackMantissa (b : BitVec 64) :
    (@unpackMantissa Format.binary64 b).toNat = b.toNat % binade := by
  change _ = b.toNat % 2 ^ 52
  simp [unpackMantissa, BitVec.extractLsb]

theorem toNat_unpackExponent (b : BitVec 64) :
    (@unpackExponent Format.binary64 b).toNat = b.toNat / binade % 2048 := by
  change _ = b.toNat / 2 ^ 52 % 2 ^ 11
  simp [unpackExponent, BitVec.extractLsb, Nat.shiftRight_eq_div_pow]

theorem toNat_unpackSign (b : BitVec 64) :
    (@unpackSign Format.binary64 b).toNat = b.toNat / signBit := by
  change _ = b.toNat / 2 ^ 63
  have bound : b.toNat < 2 ^ 64 := b.isLt
  simp only [unpackSign, BitVec.extractLsb, BitVec.toNat_cast, BitVec.extractLsb'_toNat,
    Nat.shiftRight_eq_div_pow]
  exact Nat.mod_eq_of_lt (by omega)

theorem toNat_packComponents (s : Sign) (e : BitVec 11) (m : BitVec 52) :
    (packComponents Format.binary64 s e m).toNat =
      s.toBitVec.toNat * signBit + (e.toNat * binade + m.toNat) := by
  unfold packComponents
  rw [BitVec.toNat_append, ← Nat.shiftLeft_add_eq_or_of_lt m.isLt, BitVec.toNat_append,
    ← Nat.shiftLeft_add_eq_or_of_lt e.isLt]
  simp only [Nat.shiftLeft_eq]
  unfold signBit binade
  omega

theorem exponent_eq_ones_iff (e : BitVec 11) : e = -1#_ ↔ e.toNat = 2047 := by
  rw [BitVec.neg_one_eq_allOnes, ← BitVec.toNat_inj, BitVec.toNat_allOnes]

/-- Whether a bit pattern is that of a number. -/
def IsNumber (b : BitVec 64) : Prop := b.toNat % signBit ≤ infinityIndex

theorem mantissa_eq_zero_iff (m : BitVec 52) : m = 0#52 ↔ m.toNat = 0 := by
  rw [← BitVec.toNat_inj]
  rfl

theorem isNumber_iff (b : BitVec 64) :
    IsNumber b ↔ (@unpackExponent Format.binary64 b = -1#11 →
      @unpackMantissa Format.binary64 b = 0#52) := by
  rw [exponent_eq_ones_iff, mantissa_eq_zero_iff, toNat_unpackExponent, toNat_unpackMantissa]
  unfold IsNumber signBit infinityIndex binade
  omega

/-- Unpacking loses nothing of a number. -/
theorem pack_unpack_of_isNumber {b : BitVec 64} (h : IsNumber b) :
    pack Format.binary64 (unpack Format.binary64 b) = b := by
  have number : ¬ @isNaNBits Format.binary64 b = true := by
    unfold isNaNBits
    rw [decide_eq_true_eq]
    rintro ⟨ones, nonzero⟩
    exact nonzero ((isNumber_iff b).mp h ones)
  exact (@pack_unpack Format.binary64 b (by decide)).trans (if_neg number)

/-- The sign of a bit pattern. -/
def signOf (b : BitVec 64) : Sign := Sign.ofBitVec (@unpackSign Format.binary64 b)

/-- A bit pattern with the sign replaced. -/
def withSign (s : Sign) (b : BitVec 64) : BitVec 64 :=
  packComponents Format.binary64 s (unpackExponent b) (unpackMantissa b)

theorem toNat_withSign (s : Sign) (b : BitVec 64) :
    (withSign s b).toNat = s.toBitVec.toNat * signBit + b.toNat % signBit := by
  rw [withSign, toNat_packComponents, toNat_unpackExponent, toNat_unpackMantissa]
  unfold signBit binade
  omega

/-- Another sign keeps a number a number. -/
theorem isNumber_withSign {s : Sign} {b : BitVec 64} : IsNumber (withSign s b) ↔ IsNumber b := by
  unfold IsNumber
  rw [toNat_withSign, Nat.mul_add_mod_self_right, Nat.mod_mod]

theorem neg_unpack (b : BitVec 64) :
    (unpack Format.binary64 b).neg = unpack Format.binary64 (withSign (-signOf b) b) := by
  unfold UnpackedFloat.unpack withSign signOf
  simp only [unpackSign_packComponents, unpackExponent_packComponents,
    unpackMantissa_packComponents, Sign.ofBitVec_toBitVec]
  split
  · split <;> rfl
  · split
    · split <;> rfl
    · rfl

/-- A bit pattern as a sign beside an index. -/
theorem toNat_eq (b : BitVec 64) :
    b.toNat = (signOf b).toBitVec.toNat * signBit + b.toNat % signBit := by
  rw [signOf, Sign.toBitVec_ofBitVec, toNat_unpackSign]
  unfold signBit
  omega

theorem isInfinite_iff (b : BitVec 64) :
    b.toNat % signBit = infinityIndex ↔
      @unpackExponent Format.binary64 b = -1#11 ∧ @unpackMantissa Format.binary64 b = 0#52 := by
  rw [exponent_eq_ones_iff, mantissa_eq_zero_iff, toNat_unpackExponent, toNat_unpackMantissa]
  unfold signBit infinityIndex binade
  omega

/-- What a bit pattern unpacks to depends on where its index lies to infinity. -/
theorem unpack_kinds (b : BitVec 64) :
    let f := unpack Format.binary64 b
    (b.toNat % signBit < infinityIndex ∧
        f.isFinite = true ∧ f.isInf = false ∧ f.isNaN = false) ∨
      (b.toNat % signBit = infinityIndex ∧
        f.isFinite = false ∧ f.isInf = true ∧ f.isNaN = false) ∨
      (infinityIndex < b.toNat % signBit ∧
        f.isFinite = false ∧ f.isInf = false ∧ f.isNaN = true) := by
  have number : b.toNat % signBit ≤ infinityIndex ↔ _ := isNumber_iff b
  have infinite := isInfinite_iff b
  unfold UnpackedFloat.unpack
  dsimp only
  split
  · rename_i ones
    split
    · rename_i none
      exact .inr (.inl ⟨infinite.mpr ⟨ones, none⟩, rfl, rfl, rfl⟩)
    · rename_i some
      exact .inr (.inr ⟨Nat.not_le.mp fun within => some (number.mp within ones), rfl, rfl, rfl⟩)
  · rename_i ordinary
    have within := number.mpr fun ones => absurd ones ordinary
    have below := lt_of_le_of_ne within fun same => ordinary (infinite.mp same).1
    refine .inl ⟨below, ?_⟩
    split
    · split <;> exact ⟨rfl, rfl, rfl⟩
    · exact ⟨rfl, rfl, rfl⟩

theorem isNaN_unpack_of_isNumber {b : BitVec 64} (h : IsNumber b) :
    (unpack Format.binary64 b).isNaN = false := by
  rcases unpack_kinds b with ⟨_, _, _, kind⟩ | ⟨_, _, _, kind⟩ | ⟨size, _⟩
  · exact kind
  · exact kind
  · exact absurd h (Nat.not_le.mpr size)

section Kinds

variable (v : Float)

/-- A value is not a number exactly if its index is past infinity. -/
theorem isNaN_iff : v.isNaN = true ↔ infinityIndex < index v := by
  rcases unpack_kinds v.toBits.toBitVec with
    ⟨size, _, _, kind⟩ | ⟨size, _, _, kind⟩ | ⟨size, _, _, kind⟩
  · exact iff_of_false (Bool.eq_false_iff.mp kind) (Nat.lt_asymm size)
  · exact iff_of_false (Bool.eq_false_iff.mp kind) (Nat.not_lt.mpr size.le)
  · exact iff_of_true kind size

theorem isInf_iff : v.isInf = true ↔ index v = infinityIndex := by
  rcases unpack_kinds v.toBits.toBitVec with
    ⟨size, _, kind, _⟩ | ⟨size, _, kind, _⟩ | ⟨size, _, kind, _⟩
  · exact iff_of_false (Bool.eq_false_iff.mp kind) size.ne
  · exact iff_of_true kind size
  · exact iff_of_false (Bool.eq_false_iff.mp kind) size.ne'

theorem isFinite_iff : v.isFinite = true ↔ index v < infinityIndex := by
  rcases unpack_kinds v.toBits.toBitVec with
    ⟨size, kind, _, _⟩ | ⟨size, kind, _, _⟩ | ⟨size, kind, _, _⟩
  · exact iff_of_true kind size
  · exact iff_of_false (Bool.eq_false_iff.mp kind) (Nat.not_lt.mpr size.ge)
  · exact iff_of_false (Bool.eq_false_iff.mp kind) (Nat.lt_asymm size)

end Kinds

theorem toBits_ofBits {u : UInt64} (h : u.toNat % signBit ≤ infinityIndex) :
    (Float.ofBits u).toBits = u :=
  congrArg UInt64.ofBitVec (pack_unpack_of_isNumber h)

/-- A bit pattern as its sign and its index spell it. -/
theorem toNat_toBits (v : Float) :
    v.toBits.toNat = if isNegative v then signBit + index v else index v := by
  have bound : v.toBits.toNat < 2 ^ 64 := v.toBits.toNat_lt
  unfold isNegative index signBit
  simp only [decide_eq_true_eq]
  split <;> omega

section OfIndex

variable {i : Nat} (h : i ≤ infinityIndex) (negative : Bool)

include h

theorem index_lt_signBit : i < signBit := by
  unfold signBit
  unfold infinityIndex binade at h
  omega

theorem toNat_toBits_ofIndex :
    (ofIndex negative i).toBits.toNat = if negative then signBit + i else i := by
  have bound := index_lt_signBit h
  have size : UInt64.size = 2 * signBit := by decide
  have spelt : (UInt64.ofNat (if negative then signBit + i else i)).toNat =
      if negative then signBit + i else i := by
    apply UInt64.toNat_ofNat_of_lt'
    split <;> omega
  have number : (if negative then signBit + i else i) % signBit ≤ infinityIndex := by
    split
    · rw [Nat.add_mod_left, Nat.mod_eq_of_lt bound]
      exact h
    · rw [Nat.mod_eq_of_lt bound]
      exact h
  rw [ofIndex, toBits_ofBits (spelt.symm ▸ number), spelt]

@[simp]
theorem index_ofIndex : index (ofIndex negative i) = i := by
  have bound := index_lt_signBit h
  rw [index, toNat_toBits_ofIndex h]
  split
  · rw [Nat.add_mod_left, Nat.mod_eq_of_lt bound]
  · exact Nat.mod_eq_of_lt bound

@[simp]
theorem isNegative_ofIndex : isNegative (ofIndex negative i) = negative := by
  have bound := index_lt_signBit h
  rw [isNegative, toNat_toBits_ofIndex h]
  cases negative with
  | false => simpa using bound
  | true => simp

end OfIndex

/-- A double is known by its sign and its index. -/
theorem eq_of_index {u v : Float} (sign : isNegative u = isNegative v)
    (size : index u = index v) : u = v := by
  refine Float.toBits_inj.mp (UInt64.toNat_inj.mp ?_)
  rw [toNat_toBits, toNat_toBits, sign, size]

/-- Every number is the double of its sign and its index. -/
theorem ofIndex_index {v : Float} (h : index v ≤ infinityIndex) :
    ofIndex (isNegative v) (index v) = v :=
  eq_of_index (isNegative_ofIndex h _) (index_ofIndex h _)

theorem toNat_toBits_neg {v : Float} (h : index v ≤ infinityIndex) :
    (-v).toBits.toNat =
      (-signOf v.toBits.toBitVec).toBitVec.toNat * signBit + index v := by
  have number : IsNumber (withSign (-signOf v.toBits.toBitVec) v.toBits.toBitVec) :=
    isNumber_withSign.mpr h
  change (pack Format.binary64 (unpack Format.binary64 v.toBits.toBitVec).neg).toNat = _
  rw [neg_unpack, pack_unpack_of_isNumber number, toNat_withSign]
  rfl

/-- Negation keeps the index. -/
theorem index_neg {v : Float} (h : index v ≤ infinityIndex) : index (-v) = index v := by
  rw [index, toNat_toBits_neg h, Nat.mul_add_mod_self_right]
  exact Nat.mod_eq_of_lt (index_lt_signBit h)

/-- Negation turns the sign round. -/
theorem isNegative_neg {v : Float} (h : index v ≤ infinityIndex) :
    isNegative (-v) = !isNegative v := by
  have bound := index_lt_signBit h
  have before := toNat_eq v.toBits.toBitVec
  change v.toBits.toNat = (signOf v.toBits.toBitVec).toBitVec.toNat * signBit + index v at before
  unfold isNegative
  rw [toNat_toBits_neg h, before]
  cases signOf v.toBits.toBitVec with
  | negative =>
      change decide (signBit ≤ 0 * signBit + index v) = !decide (signBit ≤ 1 * signBit + index v)
      simp [bound]
  | positive =>
      change decide (signBit ≤ 1 * signBit + index v) = !decide (signBit ≤ 0 * signBit + index v)
      simp [bound]

theorem neg_ofIndex {i : Nat} (h : i ≤ infinityIndex) (negative : Bool) :
    -ofIndex negative i = ofIndex (!negative) i := by
  have index : index (ofIndex negative i) ≤ infinityIndex := by simp [h]
  apply eq_of_index
  · rw [isNegative_neg index, isNegative_ofIndex h, isNegative_ofIndex h]
  · rw [index_neg index, index_ofIndex h, index_ofIndex h]

/-- Nothing but the value that is not a number is packed as that value. -/
theorem isNaN_pack {f : UnpackedFloat} (h : f.isNaN = false) :
    (Float.ofModel (Float.Model.pack f)).isNaN = false := by
  have number : ∀ s : Sign, ∀ e : BitVec 11, ∀ m : BitVec 52, (e = -1#11 → m = 0#52) →
      (unpack Format.binary64 (packComponents Format.binary64 s e m)).isNaN = false := by
    intro s e m finite
    refine isNaN_unpack_of_isNumber ((isNumber_iff _).mpr ?_)
    rw [unpackExponent_packComponents, unpackMantissa_packComponents]
    exact finite
  change (unpack Format.binary64 (pack Format.binary64 f)).isNaN = false
  cases f with
  | notANumber => cases h
  | infinity s => exact number _ _ _ fun _ => rfl
  | zero s => exact number _ _ _ fun ones => absurd ones (by decide)
  | finite s m e positive =>
      unfold UnpackedFloat.pack
      dsimp only
      split
      · exact number _ _ _ fun _ => rfl
      · rename_i small
        split
        · apply number _ _ _
          intro ones
          rw [exponent_eq_ones_iff, BitVec.toNat_ofNat] at ones
          change ¬ 2048 ≤ _ at small
          exfalso
          have : ∀ n : Nat, ¬ 2048 ≤ n + 1 → ¬ n % 2 ^ 11 = 2047 := by omega
          exact this _ small ones
        · exact number _ _ _ fun ones => absurd ones (by decide)

theorem isNaN_normalize (mantissa exponent : Int) (zeroSign : Sign) :
    (UnpackedFloat.normalize Format.binary64 mantissa exponent zeroSign).isNaN = false := by
  have rounded : ∀ s m e, (round Format.binary64 s m e).isNaN = false := by
    intro s m e
    unfold UnpackedFloat.round roundWithAccuracy
    dsimp only
    split <;> rfl
  unfold UnpackedFloat.normalize
  split
  · exact rounded _ _ _
  · rfl
  · exact rounded _ _ _

theorem isNaN_add_unpacked {x y : UnpackedFloat} (hx : x.isNaN = false) (hy : y.isFinite = true) :
    (UnpackedFloat.add Format.binary64 x y).isNaN = false := by
  cases y with
  | notANumber | infinity => cases hy
  | zero t =>
      cases x with
      | notANumber => cases hx
      | zero s => simp only [UnpackedFloat.add]; split <;> rfl
      | infinity | finite => rfl
  | finite =>
      cases x with
      | notANumber => cases hx
      | infinity | zero => rfl
      | finite => exact isNaN_normalize _ _ _

/-- To subtract is to add the negation. -/
theorem sub_eq_add_neg_unpacked (x y : UnpackedFloat) :
    UnpackedFloat.sub Format.binary64 x y = UnpackedFloat.add Format.binary64 x y.neg := by
  cases x with
  | finite s m e =>
      cases y with
      | finite t n d =>
          have negated : ∀ k, (-t).apply k = -t.apply k := by
            intro k
            cases t with
            | positive => rfl
            | negative => exact (Int.neg_neg _).symm
          simp only [UnpackedFloat.sub, UnpackedFloat.neg, UnpackedFloat.add]
          rw [negated, Int.sub_eq_add_neg]
      | _ => rfl
  | _ => cases y <;> rfl

theorem isFinite_neg_unpacked (x : UnpackedFloat) : x.neg.isFinite = x.isFinite := by
  cases x <;> rfl

/-- A sum is a number if both operands are and the right one is finite. -/
theorem isNaN_add {a b : Float} (ha : a.isNaN = false) (hb : b.isFinite = true) :
    (a + b).isNaN = false :=
  isNaN_pack (isNaN_add_unpacked ha hb)

/-- A difference is a number if both operands are and the right one is finite. -/
theorem isNaN_sub {a b : Float} (ha : a.isNaN = false) (hb : b.isFinite = true) :
    (a - b).isNaN = false := by
  apply isNaN_pack
  rw [sub_eq_add_neg_unpacked]
  exact isNaN_add_unpacked ha ((isFinite_neg_unpacked _).trans hb)

section HandsOn

variable {a b : Float}

theorem unpack_of_isNaN (undefined : a.isNaN = true) :
    unpack Format.binary64 a.toBits.toBitVec = .notANumber := by
  rw [Float.isNaN_eq_decide_eq_nan, decide_eq_true_eq] at undefined
  rw [undefined]
  rfl

theorem isNaN_neg (undefined : a.isNaN = true) : (-a).isNaN = true := by
  change (unpack Format.binary64 (pack Format.binary64
    (unpack Format.binary64 a.toBits.toBitVec).neg)).isNaN = true
  rw [unpack_of_isNaN undefined]
  rfl

variable (undefined : a.isNaN = true ∨ b.isNaN = true)

include undefined

/-- An operation that hands on what is not a number does so on doubles. -/
theorem isNaN_of_handsOn {f : UnpackedFloat → UnpackedFloat → UnpackedFloat}
    (first : ∀ y, f .notANumber y = .notANumber) (second : ∀ x, f x .notANumber = .notANumber) :
    (unpack Format.binary64 (pack Format.binary64 (f (unpack Format.binary64 a.toBits.toBitVec)
      (unpack Format.binary64 b.toBits.toBitVec)))).isNaN = true := by
  rcases undefined with left | right
  · rw [unpack_of_isNaN left, first]
    rfl
  · rw [unpack_of_isNaN right, second]
    rfl

theorem isNaN_add_of_isNaN : (a + b).isNaN = true :=
  isNaN_of_handsOn undefined (fun y => by cases y <;> rfl) (fun x => by cases x <;> rfl)

theorem isNaN_sub_of_isNaN : (a - b).isNaN = true :=
  isNaN_of_handsOn undefined (fun y => by cases y <;> rfl) (fun x => by cases x <;> rfl)

theorem isNaN_mul_of_isNaN : (a * b).isNaN = true :=
  isNaN_of_handsOn undefined (fun y => by cases y <;> rfl) (fun x => by cases x <;> rfl)

theorem isNaN_div_of_isNaN : (a / b).isNaN = true :=
  isNaN_of_handsOn undefined (fun y => by cases y <;> rfl) (fun x => by cases x <;> rfl)

end HandsOn

end Keypad.Double
