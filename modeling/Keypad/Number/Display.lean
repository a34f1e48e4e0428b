import Keypad.Number.Written

/-!
# Numbers on the display

The keypad shows a number in one of two ways. `numberText` shows every digit that is needed
to read the number back; the memory register is shown so. `resultText` rounds to twelve
significant digits first and takes a number too small to matter for zero; the results of
calculations are shown so.

Both are for finite numbers. `numberText?` and `resultText?` refuse the others, each in its
own way.
-/

namespace Keypad

/-- A finite double with all the digits that it needs; zero has no sign. -/
def numberText (v : Float) : Text :=
  let i := Double.index v
  if i = 0 then ['0']
  else
    let body := (Decimal.shortest i).write NumberStyle.display
    if Double.isNegative v then '-' :: body else body

/-- How many significant digits a result keeps. -/
def resultDigits : Nat := 12

/-- The index of the double nearest to `10 ^ -12`; what lies below it is shown as zero. -/
def zeroThreshold : Nat := Decimal.nearestIndex ⟨1, -12⟩

/-- The exact value of a positive finite index, rounded to the digits of a result; from the
middle between two decimals, the greater one. -/
def roundedDecimal (i : Nat) : Decimal :=
  let f := Double.magnitude i
  let unit := Decimal.leadingExponent f - resultDigits + 1
  ⟨(f.scale 10 (-unit)).roundHalfUp, unit⟩

/-- The double nearest to a finite double rounded to the digits of a result. -/
def roundSignificant (v : Float) : Float :=
  Decimal.toDouble (Double.isNegative v) (roundedDecimal (Double.index v))

/-- A finite double as a result. -/
def resultText (v : Float) : Text :=
  if Double.index v < zeroThreshold then ['0'] else numberText (roundSignificant v)

/-- Why a number has no text. -/
inductive RenderFault where
  /-- All digits were asked of a number that is not finite, or twelve of one that is no
  number. -/
  | notFinite
  /-- Twelve digits were asked of an infinite number. -/
  | infiniteResult
  deriving DecidableEq

/-- All digits of a number, or the fault of one that is not finite. -/
def numberText? (v : Float) : Except RenderFault Text :=
  if v.isFinite then .ok (numberText v) else .error .notFinite

/-- A number as a result, or the fault of one that is not finite. -/
def resultText? (v : Float) : Except RenderFault Text :=
  if v.isFinite then .ok (resultText v)
  else if v.isInf then .error .infiniteResult
  else .error .notFinite

end Keypad
