import Keypad.Number.Shortest

/-!
# Numbers written out

A number style decides how the digits of a number become text: which leading exponents are
written out in full, what follows a whole number, and how wide an exponent is. Two styles
are used. *Display* is what the keypad shows; *literal* is how messages and listings show a
double, and always tells a double from a whole number.
-/

namespace Keypad

/-- How digits become text. -/
structure NumberStyle where
  /-- The least leading exponent that is written without an exponent. -/
  plainFrom : Int
  /-- The first leading exponent that is written with one again. -/
  plainBelow : Int
  /-- What follows the digits of a whole number written without an exponent. -/
  wholeEnd : Text
  /-- The least number of digits of an exponent. -/
  exponentWidth : Nat

namespace NumberStyle

/-- The keypad's style: written out from a millionth up to twenty-one whole digits. -/
def display : NumberStyle := ⟨-6, 21, [], 1⟩

/-- The style of a listed double: written out from a ten-thousandth up to sixteen whole
digits, with `.0` after a whole number. -/
def literal : NumberStyle := ⟨-4, 16, ".0".toList, 2⟩

/-- Digits without an exponent; the first of them counts `10 ^ lead`. -/
def plain (style : NumberStyle) (digits : Text) (lead : Int) : Text :=
  if lead < 0 then
    "0.".toList ++ List.replicate (-lead - 1).toNat '0' ++ digits
  else if digits.length ≤ lead.toNat + 1 then
    digits ++ List.replicate (lead.toNat + 1 - digits.length) '0' ++ style.wholeEnd
  else
    digits.take (lead.toNat + 1) ++ '.' :: digits.drop (lead.toNat + 1)

/-- Digits with an exponent: one digit before the point, and the exponent signed. -/
def scientific (style : NumberStyle) (digits : Text) (lead : Int) : Text :=
  let size := Text.ofNat lead.natAbs
  let power := List.replicate (style.exponentWidth - size.length) '0' ++ size
  let mantissa := match digits with
    | [] => []
    | [d] => [d]
    | d :: others => d :: '.' :: others
  mantissa ++ 'e' :: (if lead < 0 then '-' else '+') :: power

/-- Digits as text; the first of them counts `10 ^ lead`. -/
def write (style : NumberStyle) (digits : Text) (lead : Int) : Text :=
  if style.plainFrom ≤ lead && lead < style.plainBelow then style.plain digits lead
  else style.scientific digits lead

end NumberStyle

namespace Decimal

/-- The digits of the coefficient without the zeros at its end. -/
def digits (d : Decimal) : Text :=
  ((Nat.toDigits 10 d.coefficient).reverse.dropWhile (· == '0')).reverse

/-- The power of ten that the first digit of the coefficient counts. -/
def lead (d : Decimal) : Int := d.exponent + digitCount d.coefficient - 1

/-- A positive decimal as text. -/
def write (style : NumberStyle) (d : Decimal) : Text := style.write d.digits d.lead

end Decimal

/-- A double as messages and listings show it: the shortest digits that read back, `.0` after
a whole number, a sign on a negative zero, and words for what is not finite. -/
def literalText (v : Float) : Text :=
  let i := Double.index v
  if Double.infinityIndex < i then "nan".toList
  else
    let body :=
      if i = Double.infinityIndex then "inf".toList
      else if i = 0 then "0.0".toList
      else (Decimal.shortest i).write NumberStyle.literal
    if Double.isNegative v then '-' :: body else body

end Keypad
