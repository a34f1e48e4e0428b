import Keypad.Number.Written
import Keypad.Text.Quoted

/-!
# Expressions

The tree of an expression. Parentheses leave no node: they only decide the shape. Empty
parentheses make a call whose argument is missing. An expression may also be built by hand, so
the tree has room for what no text produces: operators that mean nothing, and other places
where no expression stands. The evaluator says what is wrong with such a tree.
-/

namespace Keypad

/-- The operators of an expression. -/
inductive Operator where
  | plus
  | minus
  | times
  | dividedBy
  | power
  deriving DecidableEq

namespace Operator

/-- The spelling of an operator. -/
def symbol : Operator → Text
  | .plus => ['+']
  | .minus => ['-']
  | .times => ['*']
  | .dividedBy => ['/']
  | .power => ['*', '*']

/-- The operator of a spelling. -/
def ofSymbol? (text : Text) : Option Operator :=
  [plus, minus, times, dividedBy, power].find? (·.symbol == text)

/-- Whether the operator may stand before an operand as its sign. -/
def isSign : Operator → Bool
  | .plus | .minus => true
  | _ => false

end Operator

/-- An expression. -/
inductive Expr where
  | number (value : Float)
  | name (spelling : Text)
  /-- An operator, by its spelling, before its operand. -/
  | unary (symbol : Text) (operand : Expr)
  /-- An operator, by its spelling, between its operands. -/
  | binary (symbol : Text) (left right : Expr)
  /-- An operand followed by an argument in parentheses, which may be missing. -/
  | call (callee argument : Expr)
  /-- A node of no kind. -/
  | bare
  /-- No node at all. -/
  | missing

namespace Expr

/-- How many levels of nodes the tree has. -/
def depth : Expr → Nat
  | .number _ | .name _ | .bare | .missing => 1
  | .unary _ operand => operand.depth + 1
  | .binary _ left right => max left.depth right.depth + 1
  | .call callee argument => max callee.depth argument.depth + 1

/-- Whether no node stands here. -/
def isMissing : Expr → Bool
  | .missing => true
  | _ => false

theorem isMissing_eq_false_iff {e : Expr} : e.isMissing = false ↔ e ≠ .missing := by
  cases e <;> simp [isMissing]

/-- The whole tree, written out for a message. -/
def describe : Expr → Text
  | .number value => "Number(value=".toList ++ literalText value ++ [')']
  | .name spelling => "Name(name=".toList ++ Text.quoted spelling ++ [')']
  | .unary symbol operand =>
    "UnaryOp(op=".toList ++ Text.quoted symbol ++ ", operand=".toList ++ operand.describe ++ [')']
  | .binary symbol left right =>
    "BinaryOp(op=".toList ++ Text.quoted symbol ++ ", left=".toList ++ left.describe ++
      ", right=".toList ++ right.describe ++ [')']
  | .call callee argument =>
    "Call(callee=".toList ++ callee.describe ++ ", arg=".toList ++ argument.describe ++ [')']
  | .bare => "ASTNode()".toList
  | .missing => "None".toList

end Expr

end Keypad
