import Keypad.Expr.Token
import Keypad.Text.Blank

/-!
# From text to tokens

The text is read from left to right, and at each place the longest symbol is taken: all the
digits and points of a number, all the letters, digits and underscores of a name, two stars
before one. Blanks separate symbols and leave no token. Letters and digits are the ASCII
ones. The first place where no symbol can be taken is the fault.
-/

namespace Keypad

/-- Why a text has no tokens. -/
inductive LexError where
  /-- A number with a second decimal point, which stands at the place given. -/
  | secondPoint (position : Nat)
  | lonePoint (position : Nat)
  | unknownCharacter (position : Nat) (character : Char)
  deriving DecidableEq

/-- What the fault says. -/
def LexError.message : LexError → Text
  | .secondPoint position =>
    "Unexpected second decimal point at pos ".toList ++ Text.ofNat position
  | .lonePoint position => "Invalid numeric literal at pos ".toList ++ Text.ofNat position
  | .unknownCharacter position character =>
    "Unknown character at pos ".toList ++ Text.ofNat position ++ ": ".toList ++
      Text.quoted [character]

namespace Lexer

/-- A digit or a decimal point. -/
def isNumberChar (c : Char) : Bool := isDigit c || c == '.'

/-- A character that opens a name. -/
def isNameStart (c : Char) : Bool :=
  ('a' ≤ c && c ≤ 'z') || ('A' ≤ c && c ≤ 'Z') || c == '_'

/-- A character that continues a name. -/
def isNameChar (c : Char) : Bool := isNameStart c || isDigit c

/-- How many characters stand before the second decimal point, if there is one. -/
def secondPointIn (spelling : Text) : Option Nat :=
  let whole := spelling.takeWhile (· != '.')
  let places := (spelling.dropWhile (· != '.')).drop 1
  if places.contains '.' then
    some (whole.length + 1 + (places.takeWhile (· != '.')).length)
  else none

/-- The number spelt by a run of digits and points that stands at `position`. -/
def numberAt (position : Nat) (spelling : Text) : Except LexError Symbol :=
  match secondPointIn spelling with
  | some offset => .error (.secondPoint (position + offset))
  | none => if spelling == ['.'] then .error (.lonePoint position) else .ok (.number spelling)

/-- The longest symbol that begins with `c` and continues into `rest`. -/
def symbolAt (position : Nat) (c : Char) (rest : Text) : Except LexError Symbol :=
  if isNumberChar c then numberAt position (c :: rest.takeWhile isNumberChar)
  else if isNameStart c then .ok (.name (c :: rest.takeWhile isNameChar))
  else if c == '(' then .ok .opening
  else if c == ')' then .ok .closing
  else if c == '+' then .ok (.operator .plus)
  else if c == '-' then .ok (.operator .minus)
  else if c == '/' then .ok (.operator .dividedBy)
  else if c == '*' then
    if rest.head? == some '*' then .ok (.operator .power) else .ok (.operator .times)
  else .error (.unknownCharacter position c)

/-- The tokens of a text whose first character stands at `position`. The first argument
counts the characters that belong to the token just read. -/
def tokensFrom : Nat → Nat → Text → Except LexError (List Token)
  | _, _, [] => .ok []
  | skip + 1, position, _ :: rest => tokensFrom skip (position + 1) rest
  | 0, position, c :: rest =>
    if Text.isBlank c then tokensFrom 0 (position + 1) rest
    else do
      let symbol ← symbolAt position c rest
      let others ← tokensFrom (symbol.spelling.length - 1) (position + 1) rest
      return ⟨symbol, position⟩ :: others

end Lexer

/-- The tokens of a text, in order. -/
def tokensOf (text : Text) : Except LexError (List Token) := Lexer.tokensFrom 0 0 text

end Keypad
