import Keypad.Angle
import Keypad.Number.Double

/-!
# Arithmetic of doubles

The operations of an expression on doubles. None of them fails: division by zero, overflow
and arguments outside a function's domain give an infinity or a value that is not a number.
Wherever a result is decided by the standard alone (zeros, infinities, arguments that are
not numbers, domains) it is decided here in the open; the functions of the mathematics
library are asked only about the finite arguments that remain.
-/

namespace Keypad

/-- The functions of a mathematics library. -/
structure Library where
  power : Float → Float → Float
  sine : Float → Float
  cosine : Float → Float
  tangent : Float → Float
  decimalLogarithm : Float → Float
  naturalLogarithm : Float → Float

/-- The library that calculations use. -/
def Library.native : Library where
  power := Float.pow
  sine := Float.sin
  cosine := Float.cos
  tangent := Float.tan
  decimalLogarithm := Float.log10
  naturalLogarithm := Float.log

namespace Arithmetic

/-- The value that is not a number. -/
def nan : Float := 0 / 0

/-- Positive infinity. -/
def infinity : Float := 1 / 0

/-- Whether a finite double is a whole number. -/
def isInteger (v : Float) : Bool :=
  let f := Double.magnitude (Double.index v)
  f.num % f.den == 0

/-- Whether a finite double is an odd whole number. -/
def isOddInteger (v : Float) : Bool :=
  let f := Double.magnitude (Double.index v)
  f.num % f.den == 0 && f.num / f.den % 2 == 1

/-- A power of an infinite base; the exponent is not zero. -/
def powerOfInfinity (base exponent : Float) : Float :=
  let odd := exponent.isFinite && isOddInteger exponent
  if 0 < exponent then (if odd then base else infinity)
  else if odd && base < 0 then -0.0
  else 0

/-- A power with an infinite exponent; the base is finite and not one. -/
def powerToInfinity (base exponent : Float) : Float :=
  if base.abs == 1 then 1
  else if (0 < exponent) == (1 < base.abs) then infinity
  else 0

/-- A power with finite base and exponent, given by `pow` for a base that is not zero and has
one; the exponent is not zero. A zero base with a negative exponent gives positive infinity
whatever the sign of the zero. A finite result that is too great becomes the infinity of its
sign. -/
def finitePower (pow : Float → Float → Float) (base exponent : Float) : Float :=
  if base == 0 then
    if exponent < 0 then infinity
    else if isOddInteger exponent then base
    else 0
  else if base < 0 && !isInteger exponent then nan
  else
    let result := pow base exponent
    if result.isInf then (if base < 0 && isOddInteger exponent then -infinity else infinity)
    else result

/-- The base raised to the exponent, given by `pow` where both are finite. Any base to the power
zero is one, and so is one to any power, even where the other operand is not a number. -/
def powerBy (pow : Float → Float → Float) (base exponent : Float) : Float :=
  if exponent == 0 || base == 1 then 1
  else if base.isNaN || exponent.isNaN then nan
  else if base.isInf then powerOfInfinity base exponent
  else if exponent.isInf then powerToInfinity base exponent
  else finitePower pow base exponent

/-- A logarithm given by `log` on the positive finite numbers. -/
def logarithm (log : Float → Float) (x : Float) : Float :=
  if x.isNaN then nan
  else if x == 0 then -infinity
  else if x < 0 then nan
  else if x.isInf then infinity
  else log x

/-- The square root. -/
def squareRoot (x : Float) : Float := if x < 0 then nan else x.sqrt

/-- A trigonometric function given by `trig` on finite arguments in radians, of an argument
in the unit `unit`. -/
def trigonometric (trig : Float → Float) (unit : AngleUnit) (x : Float) : Float :=
  let scaled := x * unit.factor
  if scaled.isNaN || scaled.isInf then nan else trig scaled

end Arithmetic

/-- The functions that an expression can call. -/
inductive Function where
  | sine
  | cosine
  | tangent
  | decimalLogarithm
  | naturalLogarithm
  | squareRoot
  deriving DecidableEq

namespace Function

/-- The name of a function in an expression. -/
def name : Function → Text
  | .sine => "sin_angle".toList
  | .cosine => "cos_angle".toList
  | .tangent => "tan_angle".toList
  | .decimalLogarithm => "log10".toList
  | .naturalLogarithm => "ln".toList
  | .squareRoot => "sqrt".toList

/-- The function of a name. -/
def ofName? (text : Text) : Option Function :=
  [sine, cosine, tangent, decimalLogarithm, naturalLogarithm, squareRoot].find? (·.name == text)

/-- The value of a function, with a library to ask. -/
def applyBy (lib : Library) (unit : AngleUnit) : Function → Float → Float
  | .sine => Arithmetic.trigonometric lib.sine unit
  | .cosine => Arithmetic.trigonometric lib.cosine unit
  | .tangent => Arithmetic.trigonometric lib.tangent unit
  | .decimalLogarithm => Arithmetic.logarithm lib.decimalLogarithm
  | .naturalLogarithm => Arithmetic.logarithm lib.naturalLogarithm
  | .squareRoot => Arithmetic.squareRoot

/-- The value of a function. -/
def apply (unit : AngleUnit) (f : Function) : Float → Float := f.applyBy .native unit

end Function

end Keypad
