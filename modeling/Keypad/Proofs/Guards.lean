import Keypad.Proofs.Comparisons
import Keypad.Expr.Eval

/-!
# Arithmetic made of parts that refuse

No operation of an expression fails, but what it can be made of does. A division refuses a zero
divisor, and the functions of a mathematics library refuse what is outside their domain and a
finite power that is too great. Here each operation is made of such a part, behind a test that
keeps it from being asked what it refuses, or behind a handler that makes up for the refusal.

Nothing is left to refuse (`Operator.exists_guarded`, `Function.exists_guarded`), and what comes
out is what `Keypad.Arithmetic` decides in the open (`Function.guarded_eq`; the operators follow
with powers). A comparison with what is not a number is false, so every test lets it through to the
part behind it, and that part hands it on (`Function.guarded_nan`, `Operator.guarded_of_isNaN`).
-/

namespace Keypad

open Arithmetic Double

/-- Why a part of the arithmetic gives no result. A domain is left where there is no finite result
at the operands, or none at all; an overflow is a finite result that is too great. -/
inductive Refusal where
  | zeroDivision
  | domain
  | overflow

namespace Refusing

/-- A quotient. -/
def quotient (left right : Float) : Except Refusal Float :=
  if right == 0 then .error .zeroDivision else .ok (left / right)

/-- A power. Of finite operands a zero base refuses a negative exponent, a negative base one that
is no whole number, and every result has to be finite. -/
def power (pow : Float → Float → Float) (base exponent : Float) : Except Refusal Float :=
  if base.isFinite && exponent.isFinite then
    if base == 0 && exponent < 0 || base < 0 && !isInteger exponent then .error .domain
    else if (pow base exponent).isInf then .error .overflow
    else .ok (pow base exponent)
  else .ok (pow base exponent)

/-- A square root. -/
def squareRoot (x : Float) : Except Refusal Float :=
  if x < 0 then .error .domain else .ok x.sqrt

/-- A logarithm. -/
def logarithm (log : Float → Float) (x : Float) : Except Refusal Float :=
  if x == 0 || x < 0 then .error .domain else .ok (log x)

/-- A trigonometric function. -/
def trigonometric (trig : Float → Float) (x : Float) : Except Refusal Float :=
  if x.isInf then .error .domain else .ok (trig x)

end Refusing

/-- A double with the sign of another. -/
def copySign (size sign : Float) : Float := ofIndex (isNegative sign) (index size)

namespace Guarded

/-- A quotient; that of a zero divisor is put together from the signs. -/
def quotient (left right : Float) : Except Refusal Float :=
  if right == 0 then
    if left == 0 || left.isNaN then .ok nan
    else .ok (copySign infinity left * copySign 1 right)
  else Refusing.quotient left right

/-- A power; what stands for a refused one is put together from the operands. -/
def power (pow : Float → Float → Float) (base exponent : Float) : Except Refusal Float :=
  match Refusing.power pow base exponent with
  | .error .overflow =>
    .ok (if base < 0 && isOddInteger exponent then -infinity else infinity)
  | .error .domain => .ok (if base == 0 then infinity else nan)
  | answer => answer

/-- A square root. -/
def squareRoot (x : Float) : Except Refusal Float :=
  if x < 0 then .ok nan else Refusing.squareRoot x

/-- A logarithm. -/
def logarithm (log : Float → Float) (x : Float) : Except Refusal Float :=
  if x == 0 then .ok (-infinity)
  else if x < 0 then .ok nan
  else Refusing.logarithm log x

/-- A trigonometric function of an argument in the unit `unit`. -/
def trigonometric (trig : Float → Float) (unit : AngleUnit) (x : Float) : Except Refusal Float :=
  let scaled := x * unit.factor
  if scaled.isInf then .ok nan else Refusing.trigonometric trig scaled

end Guarded

/-- The value of an operator, as the library `lib` gives it. -/
def Operator.guarded (lib : Library) : Operator → Float → Float → Except Refusal Float
  | .plus, left, right => .ok (left + right)
  | .minus, left, right => .ok (left - right)
  | .times, left, right => .ok (left * right)
  | .dividedBy, left, right => Guarded.quotient left right
  | .power, left, right => Guarded.power lib.power left right

/-- The value of a function, as the library `lib` gives it. -/
def Function.guarded (lib : Library) (unit : AngleUnit) :
    Function → Float → Except Refusal Float
  | .sine => Guarded.trigonometric lib.sine unit
  | .cosine => Guarded.trigonometric lib.cosine unit
  | .tangent => Guarded.trigonometric lib.tangent unit
  | .decimalLogarithm => Guarded.logarithm lib.decimalLogarithm
  | .naturalLogarithm => Guarded.logarithm lib.naturalLogarithm
  | .squareRoot => Guarded.squareRoot

namespace Double

open Float.Model.UnpackedFloat
open Float.Model (Format UnpackedFloat)

/-- What is divided by a zero is infinite, unless it is zero or not a number. -/
theorem div_of_index_eq_zero {left right : Float} (zero : index right = 0) :
    left / right = if index left = 0 ∨ infinityIndex < index left then nan
      else ofIndex (isNegative left != isNegative right) infinityIndex := by
  have quotient : left / right = packed (UnpackedFloat.div Format.binary64
      (unpack Format.binary64 left.toBits.toBitVec)
      (unpack Format.binary64 right.toBits.toBitVec)) := rfl
  have signs : ∀ s t : Sign,
      packed (.infinity (s / t)) = ofIndex (isMinus s != isMinus t) infinityIndex := by
    intro s t
    rw [packed_infinity]
    cases s <;> cases t <;> rfl
  have divisor : unpack Format.binary64 right.toBits.toBitVec =
      .zero (signOf right.toBits.toBitVec) := by
    rcases unpack_cases right with ⟨_, parts⟩ | ⟨other, _⟩ | ⟨other, _⟩ | ⟨other, _⟩
    · exact parts
    · exact absurd zero other
    · exact absurd (zero.symm.trans other) (by decide)
    · omega
  rw [quotient, divisor, isNegative_eq, isNegative_eq]
  rcases unpack_cases left with ⟨none, parts⟩ | ⟨some, bounded, _, parts⟩ | ⟨size, parts⟩ |
    ⟨size, parts⟩
  · rw [parts, if_pos (.inl none)]
    rfl
  · rw [parts, if_neg (by omega)]
    exact signs _ _
  · rw [parts, if_neg (by rw [size]; decide)]
    exact signs _ _
  · rw [parts, if_pos (.inr size)]
    rfl

end Double

namespace Guarded

/-- The infinity of the signs of both operands. -/
theorem copySign_mul_copySign (left right : Float) :
    copySign infinity left * copySign 1 right =
      ofIndex (isNegative left != isNegative right) infinityIndex := by
  unfold copySign
  generalize isNegative left = s
  generalize isNegative right = t
  revert s t
  decide

theorem quotient_eq (left right : Float) : quotient left right = .ok (left / right) := by
  unfold quotient Refusing.quotient
  by_cases zero : (right == 0) = true
  · rw [if_pos zero, div_of_index_eq_zero (beq_zero_iff.mp zero), copySign_mul_copySign]
    simp only [Bool.or_eq_true, beq_zero_iff, isNaN_iff]
    split
    · rfl
    · rfl
  · rw [if_neg zero, if_neg zero]

theorem squareRoot_eq (x : Float) : squareRoot x = .ok (Arithmetic.squareRoot x) := by
  unfold squareRoot Arithmetic.squareRoot Refusing.squareRoot
  by_cases below : x < 0
  · rw [if_pos below, if_pos below]
  · rw [if_neg below, if_neg below, if_neg below]

theorem logarithm_eq {log : Float → Float} (undefined : log nan = nan)
    (infinite : log infinity = infinity) (x : Float) :
    logarithm log x = .ok (Arithmetic.logarithm log x) := by
  unfold logarithm Arithmetic.logarithm Refusing.logarithm
  by_cases none : x.isNaN = true
  · obtain rfl := eq_nan_of_isNaN none
    rw [if_pos none, if_neg (by decide), if_neg (by decide), if_neg (by decide), undefined]
  rw [if_neg none]
  by_cases zero : (x == 0) = true
  · rw [if_pos zero, if_pos zero]
  rw [if_neg zero, if_neg zero]
  by_cases below : x < 0
  · rw [if_pos below, if_pos below]
  rw [if_neg below, if_neg below, if_neg (by simp [zero, below])]
  by_cases whole : x.isInf = true
  · obtain rfl := eq_infinity whole below
    rw [if_pos whole, infinite]
  · rw [if_neg whole]

theorem trigonometric_eq {trig : Float → Float} (undefined : trig nan = nan) (unit : AngleUnit)
    (x : Float) : trigonometric trig unit x = .ok (Arithmetic.trigonometric trig unit x) := by
  unfold trigonometric Arithmetic.trigonometric Refusing.trigonometric
  dsimp only
  generalize x * unit.factor = scaled
  by_cases infinite : scaled.isInf = true
  · rw [if_pos infinite, if_pos (by simp [infinite])]
  rw [if_neg infinite, if_neg infinite]
  by_cases none : scaled.isNaN = true
  · obtain rfl := eq_nan_of_isNaN none
    rw [undefined, if_pos (by decide)]
  · rw [if_neg (by rw [Bool.or_eq_true, not_or]; exact ⟨none, infinite⟩)]

end Guarded

/-- What the guards leave to a library to give. It hands on what is not a number, but for a power to
zero and one of one, and its logarithms of infinity are infinite. -/
structure Library.HandsOn (lib : Library) : Prop where
  power : ∀ {base exponent : Float}, base.isNaN = true ∨ exponent.isNaN = true →
    lib.power base exponent = if exponent == 0 || base == 1 then 1 else nan
  sine : lib.sine nan = nan
  cosine : lib.cosine nan = nan
  tangent : lib.tangent nan = nan
  decimalLogarithm : lib.decimalLogarithm nan = nan ∧ lib.decimalLogarithm infinity = infinity
  naturalLogarithm : lib.naturalLogarithm nan = nan ∧ lib.naturalLogarithm infinity = infinity

/-- A function put together behind its guards is the function of an expression. -/
theorem Function.guarded_eq {lib : Library} (rules : lib.HandsOn) (f : Function)
    (unit : AngleUnit) (x : Float) : f.guarded lib unit x = .ok (f.applyBy lib unit x) := by
  cases f with
  | sine => exact Guarded.trigonometric_eq rules.sine unit x
  | cosine => exact Guarded.trigonometric_eq rules.cosine unit x
  | tangent => exact Guarded.trigonometric_eq rules.tangent unit x
  | decimalLogarithm =>
      exact Guarded.logarithm_eq rules.decimalLogarithm.1 rules.decimalLogarithm.2 x
  | naturalLogarithm =>
      exact Guarded.logarithm_eq rules.naturalLogarithm.1 rules.naturalLogarithm.2 x
  | squareRoot => exact Guarded.squareRoot_eq x

/-- A power is refused for no other reason than these two, each of which has a handler. -/
theorem Refusing.power_cases (pow : Float → Float → Float) (base exponent : Float) :
    (∃ value, power pow base exponent = .ok value) ∨ power pow base exponent = .error .domain ∨
      power pow base exponent = .error .overflow := by
  unfold power
  split
  · split
    · exact .inr (.inl rfl)
    · split
      · exact .inr (.inr rfl)
      · exact .inl ⟨_, rfl⟩
  · exact .inl ⟨_, rfl⟩

theorem Guarded.exists_power (pow : Float → Float → Float) (base exponent : Float) :
    ∃ value, power pow base exponent = .ok value := by
  unfold power
  rcases Refusing.power_cases pow base exponent with ⟨value, answer⟩ | refusal | refusal
  · rw [answer]
    exact ⟨value, rfl⟩
  · rw [refusal]
    exact ⟨_, rfl⟩
  · rw [refusal]
    exact ⟨_, rfl⟩

/-- A logarithm is asked about nothing that it refuses, whatever it is. -/
theorem Guarded.exists_logarithm (log : Float → Float) (x : Float) :
    ∃ value, logarithm log x = .ok value := by
  unfold logarithm Refusing.logarithm
  by_cases zero : (x == 0) = true
  · rw [if_pos zero]
    exact ⟨_, rfl⟩
  rw [if_neg zero]
  by_cases below : x < 0
  · rw [if_pos below]
    exact ⟨_, rfl⟩
  · rw [if_neg below, if_neg (by simp [zero, below])]
    exact ⟨_, rfl⟩

theorem Guarded.exists_trigonometric (trig : Float → Float) (unit : AngleUnit) (x : Float) :
    ∃ value, trigonometric trig unit x = .ok value := by
  unfold trigonometric Refusing.trigonometric
  dsimp only
  split
  · exact ⟨_, rfl⟩
  · exact ⟨_, rfl⟩

/-- No operator refuses any operands, whatever the library. -/
theorem Operator.exists_guarded (lib : Library) (op : Operator) (left right : Float) :
    ∃ value, op.guarded lib left right = .ok value := by
  cases op with
  | plus | minus | times => exact ⟨_, rfl⟩
  | dividedBy => exact ⟨_, Guarded.quotient_eq left right⟩
  | power => exact Guarded.exists_power lib.power left right

/-- No function refuses any argument, whatever the library. -/
theorem Function.exists_guarded (lib : Library) (unit : AngleUnit) (f : Function) (x : Float) :
    ∃ value, f.guarded lib unit x = .ok value := by
  cases f with
  | sine | cosine | tangent => exact Guarded.exists_trigonometric _ unit x
  | decimalLogarithm | naturalLogarithm => exact Guarded.exists_logarithm _ x
  | squareRoot => exact ⟨_, Guarded.squareRoot_eq x⟩

/-- No test holds of what is not a number, so a function asks its library about it. -/
theorem Function.guarded_nan {lib : Library} (rules : lib.HandsOn) (f : Function)
    (unit : AngleUnit) : f.guarded lib unit nan = .ok nan := by
  have scaled : nan * unit.factor = nan := eq_nan_of_isNaN (isNaN_mul_of_isNaN (.inl rfl))
  have trigonometric {trig : Float → Float} (undefined : trig nan = nan) :
      Guarded.trigonometric trig unit nan = .ok nan := by
    unfold Guarded.trigonometric Refusing.trigonometric
    dsimp only
    rw [scaled, if_neg (by decide), if_neg (by decide), undefined]
  have logarithm {log : Float → Float} (undefined : log nan = nan) :
      Guarded.logarithm log nan = .ok nan := by
    unfold Guarded.logarithm Refusing.logarithm
    rw [if_neg (by decide), if_neg (by decide), if_neg (by decide), undefined]
  cases f with
  | sine => exact trigonometric rules.sine
  | cosine => exact trigonometric rules.cosine
  | tangent => exact trigonometric rules.tangent
  | decimalLogarithm => exact logarithm rules.decimalLogarithm.1
  | naturalLogarithm => exact logarithm rules.naturalLogarithm.1
  | squareRoot => rfl

section Operands

variable {left right : Float} (undefined : left.isNaN = true ∨ right.isNaN = true)

include undefined

/-- A zero divisor is a number, so the test for it finds what is not one in the dividend. -/
theorem Guarded.quotient_of_isNaN : Guarded.quotient left right = .ok nan := by
  unfold Guarded.quotient Refusing.quotient
  by_cases zero : (right == 0) = true
  · have dividend : left.isNaN = true := by
      refine undefined.resolve_right fun none => ?_
      rw [eq_nan_of_isNaN none] at zero
      exact absurd zero (by decide)
    rw [if_pos zero, if_pos (by rw [dividend, Bool.or_true])]
  · rw [if_neg zero, if_neg zero, eq_nan_of_isNaN (isNaN_div_of_isNaN undefined)]

/-- Only of finite operands is a power refused. -/
theorem Guarded.power_of_isNaN (pow : Float → Float → Float) :
    Guarded.power pow left right = .ok (pow left right) := by
  have infinite : ¬ (left.isFinite && right.isFinite) = true := by
    rw [Bool.and_eq_true]
    rintro ⟨finite, finite'⟩
    rw [isNaN_of_isFinite finite, isNaN_of_isFinite finite'] at undefined
    simp at undefined
  unfold Guarded.power Refusing.power
  rw [if_neg infinite]

/-- An operator gives what is not a number where an operand is none, but for a power to zero and
one of one. -/
theorem Operator.guarded_of_isNaN {lib : Library} (rules : lib.HandsOn) (op : Operator) :
    op.guarded lib left right =
      .ok (if op = .power ∧ ((right == 0) = true ∨ (left == 1) = true) then 1 else nan) := by
  cases op with
  | plus => exact congrArg _ (eq_nan_of_isNaN (isNaN_add_of_isNaN undefined))
  | minus => exact congrArg _ (eq_nan_of_isNaN (isNaN_sub_of_isNaN undefined))
  | times => exact congrArg _ (eq_nan_of_isNaN (isNaN_mul_of_isNaN undefined))
  | dividedBy => exact Guarded.quotient_of_isNaN undefined
  | power =>
      refine (Guarded.power_of_isNaN undefined lib.power).trans ?_
      rw [rules.power undefined]
      simp only [Bool.or_eq_true, true_and]

theorem Operator.guarded_eq_of_isNaN {lib : Library} (rules : lib.HandsOn) (op : Operator) :
    op.guarded lib left right = .ok (op.applyBy lib left right) := by
  cases op with
  | plus | minus | times => rfl
  | dividedBy => exact Guarded.quotient_eq left right
  | power =>
      have none : (left.isNaN || right.isNaN) = true := by rwa [Bool.or_eq_true]
      refine (Guarded.power_of_isNaN undefined lib.power).trans ?_
      rw [rules.power undefined, Operator.applyBy, powerBy, if_pos none]

end Operands

namespace Library

/-- The same function, but for what is not a number, which it hands on. -/
def onNumbers (f : Float → Float) (x : Float) : Float := if x.isNaN then nan else f x

/-- The same library with what the guards leave to it settled. -/
def handingOn (lib : Library) : Library where
  power base exponent :=
    if base.isNaN || exponent.isNaN then (if exponent == 0 || base == 1 then 1 else nan)
    else lib.power base exponent
  sine := onNumbers lib.sine
  cosine := onNumbers lib.cosine
  tangent := onNumbers lib.tangent
  decimalLogarithm := onNumbers fun x => if x.isInf then x else lib.decimalLogarithm x
  naturalLogarithm := onNumbers fun x => if x.isInf then x else lib.naturalLogarithm x

theorem handsOn_handingOn (lib : Library) : lib.handingOn.HandsOn where
  power undefined := if_pos (by rwa [Bool.or_eq_true])
  sine := rfl
  cosine := rfl
  tangent := rfl
  decimalLogarithm := ⟨rfl, rfl⟩
  naturalLogarithm := ⟨rfl, rfl⟩

end Library

/-- The arithmetic of an expression never asks a library about what the guards leave to it. -/
theorem Function.applyBy_handingOn (lib : Library) (f : Function) (unit : AngleUnit) (x : Float) :
    f.applyBy lib.handingOn unit x = f.applyBy lib unit x := by
  have trigonometric (trig : Float → Float) :
      Arithmetic.trigonometric (Library.onNumbers trig) unit x =
        Arithmetic.trigonometric trig unit x := by
    unfold Arithmetic.trigonometric Library.onNumbers
    dsimp only
    split
    · rfl
    · rename_i number
      rw [Bool.or_eq_true, not_or] at number
      rw [if_neg number.1]
  have logarithm (log : Float → Float) :
      Arithmetic.logarithm (Library.onNumbers fun x => if x.isInf then x else log x) x =
        Arithmetic.logarithm log x := by
    unfold Arithmetic.logarithm Library.onNumbers
    by_cases none : x.isNaN = true
    · rw [if_pos none, if_pos none]
    rw [if_neg none, if_neg none, if_neg none]
    by_cases infinite : x.isInf = true
    · rw [if_pos infinite, if_pos infinite]
    · dsimp only
      rw [if_neg infinite, if_neg infinite, if_neg infinite]
  cases f with
  | sine | cosine | tangent => exact trigonometric _
  | decimalLogarithm | naturalLogarithm => exact logarithm _
  | squareRoot => rfl

theorem Operator.applyBy_handingOn (lib : Library) (op : Operator) (left right : Float) :
    op.applyBy lib.handingOn left right = op.applyBy lib left right := by
  cases op with
  | plus | minus | times | dividedBy => rfl
  | power =>
      change powerBy lib.handingOn.power left right = powerBy lib.power left right
      unfold powerBy finitePower
      by_cases none : (left.isNaN || right.isNaN) = true
      · rw [if_pos none, if_pos none]
      · have asked : lib.handingOn.power left right = lib.power left right := if_neg none
        rw [if_neg none, if_neg none, asked]

/-- A function hands on what is not a number, since its guards and its library do. -/
theorem Function.apply_nan (f : Function) (unit : AngleUnit) : f.apply unit nan = nan := by
  have rules := Library.native.handsOn_handingOn
  have answer := f.guarded_eq rules unit nan
  rw [f.guarded_nan rules, f.applyBy_handingOn] at answer
  exact (Except.ok.inj answer).symm

/-- So does an operator, but for a power to zero and one of one. -/
theorem Operator.apply_of_isNaN {left right : Float}
    (undefined : left.isNaN = true ∨ right.isNaN = true) (op : Operator) :
    op.apply left right =
      if op = .power ∧ ((right == 0) = true ∨ (left == 1) = true) then 1 else nan := by
  have rules := Library.native.handsOn_handingOn
  have answer := op.guarded_eq_of_isNaN undefined rules
  rw [op.guarded_of_isNaN undefined rules, op.applyBy_handingOn] at answer
  exact (Except.ok.inj answer).symm

/-- Where a function has no value: that of an angle at infinity, the others below zero. -/
def Function.IsOutside (unit : AngleUnit) : Function → Float → Prop
  | .sine, x | .cosine, x | .tangent, x => (x * unit.factor).isInf = true
  | .decimalLogarithm, x | .naturalLogarithm, x | .squareRoot, x => x < 0

/-- The tests find what is outside the domain, whatever the library. -/
theorem Function.guarded_of_isOutside (lib : Library) {f : Function} {unit : AngleUnit} {x : Float}
    (outside : f.IsOutside unit x) : f.guarded lib unit x = .ok nan := by
  have logarithm (log : Float → Float) (below : x < 0) : Guarded.logarithm log x = .ok nan := by
    have nonzero : ¬ (x == 0) = true := by
      rw [beq_zero_iff]
      exact (lt_zero_iff.mp below).2.1
    rw [Guarded.logarithm, if_neg nonzero, if_pos below]
  cases f with
  | sine | cosine | tangent => exact if_pos outside
  | decimalLogarithm | naturalLogarithm => exact logarithm _ outside
  | squareRoot => exact if_pos outside

theorem Function.apply_of_isOutside {f : Function} {unit : AngleUnit} {x : Float}
    (outside : f.IsOutside unit x) : f.apply unit x = nan := by
  have answer := f.guarded_eq Library.native.handsOn_handingOn unit x
  rw [Function.guarded_of_isOutside _ outside, f.applyBy_handingOn] at answer
  exact (Except.ok.inj answer).symm

end Keypad
