import Keypad.Text.Basic
import Keypad.Text.Printable

/-!
# Quoted text

Messages show a text between quotation marks, in such a way that it can be read back
exactly: the mark itself and the backslash are escaped, and a character that does not print
is spelt by its code point.
-/

namespace Keypad.Text

/-- A number in hexadecimal, filled with zeros up to `width` digits. -/
def hexPadded (width n : Nat) : Text :=
  let digits := Nat.toDigits 16 n
  List.replicate (width - digits.length) '0' ++ digits

/-- One character between quotation marks `mark`. -/
def escapeChar (mark c : Char) : Text :=
  if c == mark || c == '\x5c' then ['\x5c', c]
  else if c == '\n' then ['\x5c', 'n']
  else if c == '\r' then ['\x5c', 'r']
  else if c == '\t' then ['\x5c', 't']
  else if isPrintable c then [c]
  else if c.toNat < 0x100 then '\x5c' :: 'x' :: hexPadded 2 c.toNat
  else if c.toNat < 0x10000 then '\x5c' :: 'u' :: hexPadded 4 c.toNat
  else '\x5c' :: 'U' :: hexPadded 8 c.toNat

/-- The mark to quote a text with: the single one, unless the text holds it and no double
one. -/
def quoteMark (text : Text) : Char :=
  if text.contains '\x27' && !text.contains '\x22' then '\x22' else '\x27'

/-- The text between quotation marks. -/
def quoted (text : Text) : Text :=
  let mark := quoteMark text
  mark :: text.flatMap (escapeChar mark) ++ [mark]

end Keypad.Text
