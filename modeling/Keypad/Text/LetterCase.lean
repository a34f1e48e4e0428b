import Keypad.Text.Basic

/-!
# Letter case

Key labels, log levels and commands are looked up in one case, and all of them are spelt in
ASCII. So the case maps here are complete for every character that maps to ASCII letters
alone, which includes a few letters outside ASCII (the long s, the dotless i, the Kelvin
sign, the Latin ligatures). Any other character maps to itself: it can stand in no entry
of such a table before or after.
-/

namespace Keypad.Text

/-- The upper case of a character, where it is spelt in ASCII letters. -/
def upperOf (c : Char) : Text :=
  if 'a' ≤ c && c ≤ 'z' then [Char.ofNat (c.toNat - 32)]
  else if c == 'ß' then ['S', 'S']
  else if c == 'ı' then ['I']
  else if c == 'ſ' then ['S']
  else if c == 'ﬀ' then ['F', 'F']
  else if c == 'ﬁ' then ['F', 'I']
  else if c == 'ﬂ' then ['F', 'L']
  else if c == 'ﬃ' then ['F', 'F', 'I']
  else if c == 'ﬄ' then ['F', 'F', 'L']
  else if c == 'ﬅ' || c == 'ﬆ' then ['S', 'T']
  else [c]

/-- The text in upper case. -/
def upper (text : Text) : Text := text.flatMap upperOf

/-- The lower case of a character, where it is an ASCII letter. The Kelvin sign is the one
letter outside ASCII of this kind. -/
def lowerOf (c : Char) : Char :=
  if 'A' ≤ c && c ≤ 'Z' then Char.ofNat (c.toNat + 32)
  else if c == '\u212a' then 'k'
  else c

/-- The text in lower case. -/
def lower (text : Text) : Text := text.map lowerOf

end Keypad.Text
