import Keypad.Number.Decimal
import Keypad.Text.Blank

/-!
# Whole numbers as text

A whole number may be spelt with more than its digits: white space around it, a plus sign,
zeros before the first digit that counts, a decimal point with zeros after it, and
underscores between the digits. Reading takes these off one after the other, from the outside
inwards, and what is left must be digits with at most a minus sign before them.
-/

namespace Keypad.Whole

/-- White space: a blank, but none of the four separators of ASCII. -/
def isSpace (c : Char) : Bool := Text.isBlank c && !('\x1c' ≤ c && c ≤ '\x1f')

/-- The text without the white space at either end. -/
def withoutSpace (text : Text) : Text :=
  ((text.dropWhile isSpace).reverse.dropWhile isSpace).reverse

/-- The text without a plus sign before its first digit. -/
def withoutPlus : Text → Text
  | '+' :: c :: rest => if isDigit c then c :: rest else '+' :: c :: rest
  | text => text

/-- Drop zeros and underscores that follow `last`, one of their kind. If that leads to the
end or to a decimal point, the last of them stays in front. -/
def dropZeros (last : Char) : Text → Text
  | [] => [last]
  | c :: rest =>
    if c == '0' || c == '_' then dropZeros c rest
    else if c == '.' then last :: c :: rest
    else c :: rest

/-- The text without the zeros it begins with, among which underscores may stand as they
like. -/
def withoutLeadingZeros : Text → Text
  | '0' :: rest => dropZeros '0' rest
  | text => text

/-- The text without the zeros that lead up to its first other digit, on either side of a
minus sign. -/
def withoutUselessZeros (text : Text) : Text :=
  match withoutLeadingZeros text with
  | '-' :: rest => '-' :: withoutLeadingZeros rest
  | rest => rest

/-- The text without a decimal point that only zeros follow, one at least. -/
def withoutZeroPlaces (text : Text) : Text :=
  match text.dropWhile (· != '.') with
  | [] => text
  | _ :: places =>
    if !places.isEmpty && places.all (· == '0') then text.takeWhile (· != '.') else text

/-- The text without its underscores, if each of them stands alone and none at an end. -/
def withoutUnderscores (text : Text) : Text :=
  if text.head? == some '_' || text.getLast? == some '_' || Text.occurs ['_', '_'] text then text
  else text.filter (· != '_')

/-- The natural number that digits spell. -/
def natOfDigits? (digits : Text) : Option Nat :=
  if !digits.isEmpty && digits.all isDigit then some (Decimal.valueOfDigits digits) else none

/-- The number that digits spell, with at most a minus sign before them. -/
def ofDigits? : Text → Option Int
  | '-' :: digits => (natOfDigits? digits).map fun n => -(n : Int)
  | digits => (natOfDigits? digits).map fun n => (n : Int)

/-- How many characters a whole number may have, its sign included, to be taken from a
text. -/
def maxLength : Nat := 4300

/-- The whole number that a text spells. -/
def read? (text : Text) : Option Int :=
  ofDigits? (withoutUnderscores (withoutZeroPlaces
    (withoutUselessZeros (withoutPlus (withoutSpace text)))))

end Keypad.Whole
