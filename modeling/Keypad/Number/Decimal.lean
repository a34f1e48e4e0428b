import Keypad.Number.Double
import Keypad.Text.Basic

/-!
# Decimal numbers

A decimal number is a coefficient times a power of ten. This file reads one from its
spelling and finds the double nearest to it; the reading is exact and the rounding is done
once, at the end.
-/

namespace Keypad

/-- The number `coefficient · 10 ^ exponent`. -/
structure Decimal where
  /-- The digits, as one natural number. -/
  coefficient : Nat
  /-- The power of ten that the last digit counts. -/
  exponent : Int

/-- An ASCII decimal digit. -/
def isDigit (c : Char) : Bool := '0' ≤ c && c ≤ '9'

namespace Decimal

/-- The natural number that a run of ASCII digits spells. -/
def valueOfDigits (digits : Text) : Nat :=
  digits.foldl (fun n c => 10 * n + (c.toNat - 48)) 0

/-- The number of a spelling by digits with at most one decimal point. -/
def ofPlain (spelling : Text) : Decimal :=
  let whole := spelling.takeWhile (· != '.')
  let places := (spelling.dropWhile (· != '.')).drop 1
  ⟨valueOfDigits (whole ++ places), -(places.length : Int)⟩

/-- The exact value as a fraction. -/
def toFraction (d : Decimal) : Double.Fraction :=
  Double.Fraction.scale ⟨d.coefficient, 1⟩ 10 d.exponent

/-- The index of the nearest double. A decimal far beyond the range of the doubles at either
end is settled by its size alone, so that no power of ten of that size is ever formed. -/
def nearestIndex (d : Decimal) : Nat :=
  if d.coefficient = 0 then 0
  else if 308 < d.exponent then Double.infinityIndex
  else if Nat.log2 d.coefficient + 1 + 3 * d.exponent < -1100 then 0
  else Double.nearestIndex d.toFraction

/-- The double nearest to a decimal with a sign in front. -/
def toDouble (negative : Bool) (d : Decimal) : Float :=
  Double.ofIndex negative d.nearestIndex

/-- Split a leading sign off; true stands for minus. -/
def splitSign : Text → Bool × Text
  | '-' :: rest => (true, rest)
  | '+' :: rest => (false, rest)
  | text => (false, text)

/-- Digits with at most one decimal point among them, and at least one digit. -/
def isPlain (spelling : Text) : Bool :=
  spelling.any isDigit && spelling.all (fun c => isDigit c || c == '.') &&
    spelling.count '.' ≤ 1

/-- The exponent that follows the mark `e`: digits with an optional sign. -/
def readExponent? (text : Text) : Option Int :=
  let (negative, digits) := splitSign text
  if digits.isEmpty || !digits.all isDigit then none
  else some (if negative then -(valueOfDigits digits : Int) else valueOfDigits digits)

/-- Read a decimal number: an optional sign, digits with at most one point, and optionally
an exponent after `e` or `E`. -/
def read? (text : Text) : Option (Bool × Decimal) :=
  let (negative, body) := splitSign text
  let isMark := fun c : Char => c == 'e' || c == 'E'
  let plain := body.takeWhile (!isMark ·)
  if isPlain plain then
    let d := ofPlain plain
    match body.dropWhile (!isMark ·) with
    | [] => some (negative, d)
    | _ :: tail =>
      (readExponent? tail).map fun e => (negative, ⟨d.coefficient, d.exponent + e⟩)
  else none

/-- The double nearest to the number that a text spells. -/
def readDouble? (text : Text) : Option Float :=
  (read? text).map fun (negative, d) => d.toDouble negative

end Decimal

end Keypad
