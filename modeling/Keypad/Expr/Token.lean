import Keypad.Expr.Basic

/-!
# Tokens

The pieces an expression text is made of, each with the place where it stands. A number
token keeps its spelling; its value is the double nearest to that.
-/

namespace Keypad

/-- What a token is. -/
inductive Symbol where
  /-- A number, by its digits and point. -/
  | number (spelling : Text)
  | name (spelling : Text)
  | operator (op : Operator)
  | opening
  | closing
  deriving DecidableEq

namespace Symbol

/-- The characters of a symbol. -/
def spelling : Symbol → Text
  | .number text | .name text => text
  | .operator op => op.symbol
  | .opening => ['(']
  | .closing => [')']

/-- The value of a number's spelling. -/
def valueOf (spelling : Text) : Float := (Decimal.ofPlain spelling).toDouble false

/-- The name of a symbol's class in messages and listings. -/
def className : Symbol → Text
  | .number _ => "NUMBER".toList
  | .name _ => "IDENT".toList
  | .operator _ => "OP".toList
  | .opening => "LPAREN".toList
  | .closing => "RPAREN".toList

/-- What a symbol stands for, as messages show it: a number by its value, anything else by
its spelling in quotation marks. -/
def shown : Symbol → Text
  | .number text => literalText (valueOf text)
  | symbol => Text.quoted symbol.spelling

end Symbol

/-- A symbol at a place. -/
structure Token where
  symbol : Symbol
  /-- How many characters stand before it. -/
  position : Nat
  deriving DecidableEq

/-- A token written out: class, value, and place. -/
def tokenText (className shown : Text) (position : Nat) : Text :=
  "Token(".toList ++ className ++ ", ".toList ++ shown ++ ", pos=".toList ++
    Text.ofNat position ++ [')']

/-- A token written out. -/
def Token.describe (t : Token) : Text := tokenText t.symbol.className t.symbol.shown t.position

/-- The end of a text of the given length, written out as the last token. -/
def endOfTextDescribed (length : Nat) : Text :=
  tokenText "EOF".toList "None".toList length

end Keypad
