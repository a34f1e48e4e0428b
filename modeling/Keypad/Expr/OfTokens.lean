import Keypad.Room
import Keypad.Expr.Lexer

/-!
# From tokens to expressions

The tokens are taken one at a time. What has been read so far is a stack of *frames*, each an
open construct that waits for the operand now being read: a sign, a parenthesis, an argument,
an operator with its left operand. A token either extends this or is refused, so a text that
is no expression is refused at the first token that no expression could have there.

The operators bind as follows, from loose to tight: plus and minus; times and divided by; power,
which alone groups to the right; signs; and closest of all the parentheses that follow an
operand, which make a call. A signed operand is never the base of a power, so `-2**2` is
refused rather than given one of its two readings, while `2**-2` is accepted.
-/

namespace Keypad

/-- Why tokens make no expression. -/
inductive GrammarError where
  | endOfExpression
  /-- The text ends, at the place given, inside a parenthesis. -/
  | unclosed (position : Nat)
  | notOperand (found : Token)
  | notClosing (found : Token)
  | leftover (found : Token)
  /-- A power, at the place given, whose base has a sign. -/
  | signedBase (position : Nat)
  deriving DecidableEq

namespace GrammarError

/-- What the fault says. -/
def message : GrammarError → Text
  | .endOfExpression => "Unexpected end of expression".toList
  | .unclosed position =>
    "Expected RPAREN at pos ".toList ++ Text.ofNat position ++ "; got EOF None".toList
  | .notOperand found =>
    "Unexpected token ".toList ++ found.symbol.className ++ [' '] ++ found.symbol.shown ++
      " at pos ".toList ++ Text.ofNat found.position
  | .notClosing found =>
    "Expected RPAREN at pos ".toList ++ Text.ofNat found.position ++ "; got ".toList ++
      found.symbol.className ++ [' '] ++ found.symbol.shown
  | .leftover found =>
    "Unexpected token ".toList ++ found.symbol.shown ++ " at pos ".toList ++
      Text.ofNat found.position
  | .signedBase position =>
    "Signed base before '**' at pos ".toList ++ Text.ofNat position ++
      "; use parentheses".toList

end GrammarError

namespace Operator

/-- How tightly an operator holds its left operand. -/
def binding : Operator → Nat
  | .plus | .minus => 50
  | .times | .dividedBy => 60
  | .power => 70

/-- How tightly an operator holds its right operand: more loosely than its left one exactly
if it groups to the right. -/
def rightBinding : Operator → Nat
  | .power => 69
  | op => op.binding

end Operator

namespace Reading

/-- A construct that waits for its last operand. -/
inductive Frame where
  | sign (op : Operator)
  /-- A parenthesis around a whole expression. -/
  | group
  | argument (callee : Expr)
  | operation (left : Expr) (op : Operator)

/-- How many levels of nesting a frame counts for. -/
def Frame.levels : Frame → Nat
  | .sign _ | .group => 2
  | .argument _ | .operation _ _ => 1

/-- What may come next. -/
inductive Stage where
  /-- An operand. -/
  | before
  /-- An operand, or the end of an empty argument. -/
  | opened (callee : Expr)
  /-- Anything that may follow a complete operand. -/
  | after (value : Expr)

/-- What has been read so far. -/
structure State where
  /-- The open constructs, the innermost first. -/
  frames : List Frame
  stage : Stage

/-- Nothing read yet. -/
def start : State := ⟨[], .before⟩

/-- How many levels of nesting are open. -/
def levelsOf : List Frame → Nat
  | [] => 0
  | frame :: frames => frame.levels + levelsOf frames

/-- Complete every construct that holds an operand at least as tightly as `binding`: the
operand becomes theirs, and what they make of it is the new operand. -/
def reduce (binding : Nat) : List Frame → Expr → List Frame × Expr
  | .sign op :: frames, value => reduce binding frames (.unary op.symbol value)
  | .operation left op :: frames, value =>
    if binding ≤ op.rightBinding then
      reduce binding frames (.binary op.symbol left value)
    else (.operation left op :: frames, value)
  | frames, value => (frames, value)

/-- Take a token where an operand should stand. -/
def takeOperand (frames : List Frame) (token : Token) : Except GrammarError State :=
  match token.symbol with
  | .number spelling => .ok ⟨frames, .after (.number (Symbol.valueOf spelling))⟩
  | .name spelling => .ok ⟨frames, .after (.name spelling)⟩
  | .opening => .ok ⟨.group :: frames, .before⟩
  | .operator op =>
    if op.isSign then .ok ⟨.sign op :: frames, .before⟩ else .error (.notOperand token)
  | .closing => .error (.notOperand token)

/-- Whether the operand just completed is that of a sign. -/
def isSigned : List Frame → Bool
  | .sign _ :: _ => true
  | _ => false

/-- Take an operator after a complete operand. -/
def takeOperator (frames : List Frame) (value : Expr) (op : Operator) (position : Nat) :
    Except GrammarError State :=
  if op = .power && isSigned frames then .error (.signedBase position)
  else
    let (frames, left) := reduce op.binding frames value
    .ok ⟨.operation left op :: frames, .before⟩

/-- Take a closing parenthesis after a complete operand. -/
def takeClosing (frames : List Frame) (value : Expr) (token : Token) :
    Except GrammarError State :=
  match reduce 0 frames value with
  | (.group :: frames, value) => .ok ⟨frames, .after value⟩
  | (.argument callee :: frames, value) => .ok ⟨frames, .after (.call callee value)⟩
  | _ => .error (.leftover token)

/-- The fault of a token that cannot follow a complete operand. -/
def refuse (frames : List Frame) (value : Expr) (token : Token) : GrammarError :=
  match reduce 0 frames value with
  | ([], _) => .leftover token
  | _ => .notClosing token

/-- Take the next token. -/
def State.step (s : State) (token : Token) : Except GrammarError State :=
  match s.stage with
  | .before => takeOperand s.frames token
  | .opened callee =>
    match token.symbol with
    | .closing => .ok ⟨s.frames, .after (.call callee .missing)⟩
    | _ => takeOperand (.argument callee :: s.frames) token
  | .after value =>
    match token.symbol with
    | .opening => .ok ⟨s.frames, .opened value⟩
    | .operator op => takeOperator s.frames value op token.position
    | .closing => takeClosing s.frames value token
    | _ => .error (refuse s.frames value token)

/-- The expression that has been read when the text ends at `position`. -/
def State.finish (s : State) (position : Nat) : Except GrammarError Expr :=
  match s.stage with
  | .before | .opened _ => .error .endOfExpression
  | .after value =>
    match reduce 0 s.frames value with
    | ([], value) => .ok value
    | _ => .error (.unclosed position)

/-- Take all tokens, as long as there is room for the open constructs. -/
def run (room : Room) (s : State) : List Token → Except (Bounded GrammarError) State
  | [] => .ok s
  | token :: rest =>
    match s.step token with
    | .error e => .error (.fault e)
    | .ok s => if room.admits (levelsOf s.frames) then run room s rest else .error .tooDeep

end Reading

/-- The expression that tokens make up, in a text that ends at `position`. -/
def Expr.ofTokens (room : Room) (tokens : List Token) (position : Nat) :
    Except (Bounded GrammarError) Expr :=
  match Reading.run room Reading.start tokens with
  | .error e => .error e
  | .ok s =>
    match s.finish position with
    | .error e => .error (.fault e)
    | .ok e => .ok e

/-- Why a text is no expression. -/
inductive TextError where
  | lexical (error : LexError)
  | grammatical (error : GrammarError)
  deriving DecidableEq

/-- What the fault says. -/
def TextError.message : TextError → Text
  | .lexical e => e.message
  | .grammatical e => e.message

/-- The expression that a text spells. All of the text is split into tokens before the first
of them is taken. -/
def Expr.ofText (room : Room) (text : Text) : Except (Bounded TextError) Expr :=
  match tokensOf text with
  | .error e => .error (.fault (.lexical e))
  | .ok tokens =>
    match Expr.ofTokens room tokens text.length with
    | .ok e => .ok e
    | .error (.fault e) => .error (.fault (.grammatical e))
    | .error .tooDeep => .error .tooDeep

end Keypad
