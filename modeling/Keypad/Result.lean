import Keypad.Number.Display

/-!
# Results

A calculation ends in exactly one of two ways: with a finite number, or with one of five
errors. The user sees the number as a result text, or the label of the error.
-/

namespace Keypad

/-- The errors a calculation can end in. -/
inductive ErrorKind where
  /-- The text is no expression. -/
  | invalidFormat
  /-- The expression has no value as a number. -/
  | invalidInput
  /-- The text divides by a zero that is written out. -/
  | divideByZero
  /-- The value is beyond the range of the numbers. -/
  | overflow
  /-- Any other fault, such as an unknown name. -/
  | generic
  deriving DecidableEq

namespace ErrorKind

/-- What the display shows for an error. -/
def label : ErrorKind → Text
  | .invalidFormat => "Invalid format".toList
  | .invalidInput => "Invalid input".toList
  | .divideByZero => "Can't divide by zero".toList
  | .overflow => "Value too large".toList
  | .generic => "Error".toList

/-- All errors. -/
def all : List ErrorKind := [.invalidFormat, .invalidInput, .divideByZero, .overflow, .generic]

/-- The error with a given label. -/
def ofLabel? (text : Text) : Option ErrorKind := all.find? (·.label == text)

end ErrorKind

/-- How a calculation ends. -/
inductive Result where
  /-- With a finite number. -/
  | success (value : Float)
  | failure (kind : ErrorKind)

namespace Result

/-- The result of a calculation that arrived at a number. -/
def ofNumber (v : Float) : Result :=
  if v.isNaN then .failure .invalidInput
  else if v.isInf then .failure .overflow
  else .success v

/-- The result of a calculation that arrived at a value; an undefined value counts as no
expression. -/
def ofValue : Option Float → Result
  | some v => ofNumber v
  | none => .failure .invalidFormat

/-- The result text of a success. -/
def text? : Result → Option Text
  | .success v => some (resultText v)
  | .failure _ => none

end Result

/-- A value of any kind, offered as the result of a calculation. -/
inductive RawValue where
  /-- Something that is no number. -/
  | other
  | integer (n : Int)
  | number (v : Float)

/-- The result of a raw value; none if it is a whole number that no finite double is near
to. -/
def RawValue.result? : RawValue → Option Result
  | .other => some (.failure .invalidFormat)
  | .number v => some (.ofNumber v)
  | .integer n =>
    let v := Decimal.toDouble (n < 0) ⟨n.natAbs, 0⟩
    if v.isFinite then some (.ofNumber v) else none

end Keypad
