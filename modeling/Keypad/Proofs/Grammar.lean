import Keypad.Expr.OfTokens

/-!
# The grammar of expressions

The texts that are expressions, said without a reader. The grammar has six layers, and which
tree a sequence of symbols derives follows from the layers alone: sums are made of products,
products of powers, and a power has an operand without a sign as its base. Sums and products
group to the left, since their left part is of their own layer; powers group to the right.

Parentheses leave no node. What follows an operand in parentheses is always an argument.
-/

namespace Keypad

namespace Grammar

/-- The layers of the grammar, from the one that holds most loosely to the tightest. -/
inductive Layer where
  | sum
  | product
  | power
  | signed
  | applied
  | primary
  deriving DecidableEq

/-- The symbols of a sequence derive an expression in a layer. -/
inductive Derives : Layer → List Symbol → Expr → Prop where
  | number (spelling : Text) :
      Derives .primary [.number spelling] (.number (Symbol.valueOf spelling))
  | name (spelling : Text) : Derives .primary [.name spelling] (.name spelling)
  /-- Any sum may stand between parentheses, and they leave no node. -/
  | group {inner : List Symbol} {e : Expr} (sum : Derives .sum inner e) :
      Derives .primary (.opening :: (inner ++ [.closing])) e
  | alone {symbols : List Symbol} {e : Expr} (operand : Derives .primary symbols e) :
      Derives .applied symbols e
  | call {before inner : List Symbol} {callee argument : Expr}
      (operand : Derives .applied before callee) (sum : Derives .sum inner argument) :
      Derives .applied (before ++ .opening :: (inner ++ [.closing])) (.call callee argument)
  | emptyCall {before : List Symbol} {callee : Expr} (operand : Derives .applied before callee) :
      Derives .applied (before ++ [.opening, .closing]) (.call callee .missing)
  | sign {op : Operator} {symbols : List Symbol} {e : Expr} (signs : op.isSign = true)
      (operand : Derives .applied symbols e) :
      Derives .signed (.operator op :: symbols) (.unary op.symbol e)
  | signs {op : Operator} {symbols : List Symbol} {e : Expr} (signs : op.isSign = true)
      (operand : Derives .signed symbols e) :
      Derives .signed (.operator op :: symbols) (.unary op.symbol e)
  /-- A signed operand is a power by itself. -/
  | powerOfSigned {symbols : List Symbol} {e : Expr} (operand : Derives .signed symbols e) :
      Derives .power symbols e
  | powerOfApplied {symbols : List Symbol} {e : Expr} (operand : Derives .applied symbols e) :
      Derives .power symbols e
  /-- Only an operand without a sign can be raised to a power. -/
  | power {before after : List Symbol} {base exponent : Expr}
      (left : Derives .applied before base) (right : Derives .power after exponent) :
      Derives .power (before ++ .operator .power :: after)
        (.binary Operator.power.symbol base exponent)
  | productOfPower {symbols : List Symbol} {e : Expr} (power : Derives .power symbols e) :
      Derives .product symbols e
  | product {op : Operator} {before after : List Symbol} {l r : Expr}
      (scales : op = .times ∨ op = .dividedBy)
      (left : Derives .product before l) (right : Derives .power after r) :
      Derives .product (before ++ .operator op :: after) (.binary op.symbol l r)
  | sumOfProduct {symbols : List Symbol} {e : Expr} (product : Derives .product symbols e) :
      Derives .sum symbols e
  | sum {op : Operator} {before after : List Symbol} {l r : Expr}
      (adds : op = .plus ∨ op = .minus)
      (left : Derives .sum before l) (right : Derives .product after r) :
      Derives .sum (before ++ .operator op :: after) (.binary op.symbol l r)

/-- The layer of an operation. -/
def layerOf : Operator → Layer
  | .plus | .minus => .sum
  | .times | .dividedBy => .product
  | .power => .power

/-- The layer of the left operand of an operator. -/
def leftLayer : Operator → Layer
  | .plus | .minus => .sum
  | .times | .dividedBy => .product
  | .power => .applied

/-- The layer of the right operand of an operator. -/
def rightLayer : Operator → Layer
  | .plus | .minus => .product
  | .times | .dividedBy | .power => .power

/-- The three rules for operators between operands as one. -/
theorem Derives.operation (op : Operator) {before after : List Symbol} {l r : Expr}
    (left : Derives (leftLayer op) before l) (right : Derives (rightLayer op) after r) :
    Derives (layerOf op) (before ++ .operator op :: after) (.binary op.symbol l r) := by
  cases op with
  | plus => exact .sum (.inl rfl) left right
  | minus => exact .sum (.inr rfl) left right
  | times => exact .product (.inl rfl) left right
  | dividedBy => exact .product (.inr rfl) left right
  | power => exact .power left right

/-- What derives as a power derives as a sum. -/
theorem Derives.sumOfPower {symbols : List Symbol} {e : Expr} (h : Derives .power symbols e) :
    Derives .sum symbols e :=
  .sumOfProduct (.productOfPower h)

end Grammar

end Keypad
