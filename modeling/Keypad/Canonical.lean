import Keypad.Text.Basic
import Keypad.Text.DecimalDigit

/-!
# Canonical text

The keypad writes with display glyphs and lets parentheses stay open. The canonical form of
such a text is what an expression is read from: every glyph replaced by its canonical
spelling, every parenthesis closed, and a mark if the text divides by a zero that is written
out.

The replacement is one pass from left to right. What no glyph stands for is copied as it is;
whether it means anything is decided when the expression is read.
-/

namespace Keypad

/-- The display glyphs and what they are spelt as. At any place the first that fits is
taken. -/
def glyphs : List (Text × Text) := [
  ("sin(".toList, "sin_angle(".toList),
  ("cos(".toList, "cos_angle(".toList),
  ("tan(".toList, "tan_angle(".toList),
  ("log(".toList, "log10(".toList),
  ("ln(".toList, "ln(".toList),
  ("√(".toList, "sqrt(".toList),
  ("×".toList, "*".toList),
  ("÷".toList, "/".toList),
  ("%".toList, "/100".toList),
  ("π".toList, "pi".toList),
  ("e".toList, "e".toList),
  ("^".toList, "**".toList)]

/-- The canonical spelling of a piece of text: that of a glyph, or the piece itself. -/
def respellPiece (piece : Text) : Text := (glyphs.lookup piece).getD piece

/-- The text with every glyph in its canonical spelling. -/
def respell (text : Text) : Text :=
  (Text.pieces (glyphs.map (·.1)) text).flatMap respellPiece

/-- How many closing parentheses a text lacks, by the counts of the two kinds alone. -/
def missingClosings (text : Text) : Nat := text.count '(' - text.count ')'

/-- The text with its open parentheses closed at the end. Closing parentheses in excess are
left alone. -/
def closeParentheses (text : Text) : Text :=
  text ++ List.replicate (missingClosings text) ')'

namespace ZeroDenominator

/-- A character that may follow a zero denominator with a decimal point. -/
def isOperatorChar (c : Char) : Bool := c == '+' || c == '-' || c == '*' || c == '/'

/-- What may follow the places of a zero denominator with a decimal point: an operator, or
the end of the text, where a final line break does not count. -/
def endsPlaces : Text → Bool
  | [] => true
  | ['\n'] => true
  | c :: _ => isOperatorChar c

/-- Whether the text after a slash and a zero makes that zero the whole denominator: it
neither goes on with a digit nor has a decimal point, or has places that are all zero. -/
def endsZero : Text → Bool
  | [] => true
  | '.' :: places => endsPlaces (places.dropWhile (· == '0'))
  | c :: _ => !Text.isDecimalDigit c

end ZeroDenominator

/-- Whether a denominator in a canonical text is a zero that is written out. -/
def dividesByWrittenZero : Text → Bool
  | [] => false
  | c :: rest =>
    (c == '/' && rest.head? == some '0' && ZeroDenominator.endsZero (rest.drop 1)) ||
      dividesByWrittenZero rest

/-- A text that an expression can be read from. -/
structure Canonical where
  text : Text
  /-- Whether a denominator in it is a zero that is written out. -/
  dividesByZero : Bool

/-- The canonical form of what the keypad writes. -/
def Canonical.ofKeypad (text : Text) : Canonical :=
  let canonical := closeParentheses (respell text)
  ⟨canonical, dividesByWrittenZero canonical⟩

end Keypad
