import Keypad.Room
import Keypad.Expr.Arithmetic
import Keypad.Expr.Basic
import Keypad.Text.DecimalDigit

/-!
# The value of an expression

Evaluation fails only for what is wrong with the tree itself: a name that means nothing, an
operator that means nothing, a call of something that is no function, a place without an
expression. The first such fault is reported, operands from left to right before the operator
over them, a callee before its argument.

A constant glued to digits, such as `pi2`, names nothing but is no fault either. Its value is
undefined; inside arithmetic an undefined value counts as one that is not a number. So does an
argument that is missing.
-/

namespace Keypad

/-- Why an expression has no value. -/
inductive EvalError where
  | undefinedName (spelling : Text)
  | unknownUnary (symbol : Text)
  | unknownBinary (symbol : Text)
  | notFunction (callee : Expr)
  | bareNode
  | missingNode

/-- What the fault says. -/
def EvalError.message : EvalError → Text
  | .undefinedName spelling => "Undefined name: ".toList ++ spelling
  | .unknownUnary symbol => "Unknown unary operator: ".toList ++ symbol
  | .unknownBinary symbol => "Unknown binary operator: ".toList ++ symbol
  | .notFunction callee => "Not a function: ".toList ++ callee.describe
  | .bareNode => "Unsupported AST node: ASTNode".toList
  | .missingNode => "Unsupported AST node: NoneType".toList

/-- The constants by name. -/
def constants : List (Text × Float) :=
  [("pi".toList, 3.141592653589793), ("e".toList, 2.718281828459045)]

/-- A constant's name followed by one or more digits and nothing else. -/
def isConstantWithDigits (spelling : Text) : Bool :=
  constants.any fun (name, _) =>
    match name.isPrefixOf? spelling with
    | some digits => !digits.isEmpty && digits.all Text.isDecimalDigit
    | none => false

/-- The value of a name: that of a constant, undefined for a constant with digits. -/
def nameValue (spelling : Text) : Except EvalError (Option Float) :=
  match constants.lookup spelling with
  | some value => .ok (some value)
  | none =>
    if isConstantWithDigits spelling then .ok none else .error (.undefinedName spelling)

/-- A value inside arithmetic. -/
def operandValue (value : Option Float) : Float := value.getD Arithmetic.nan

/-- The value of a sign before an operand. -/
def unaryValue (symbol : Text) (operand : Float) : Except EvalError Float :=
  match Operator.ofSymbol? symbol with
  | some .plus => .ok operand
  | some .minus => .ok (-operand)
  | _ => .error (.unknownUnary symbol)

/-- The value of an operator between two operands, with a library to ask. -/
def Operator.applyBy (lib : Library) : Operator → Float → Float → Float
  | .plus, left, right => left + right
  | .minus, left, right => left - right
  | .times, left, right => left * right
  | .dividedBy, left, right => left / right
  | .power, left, right => Arithmetic.powerBy lib.power left right

/-- The value of an operator between two operands. -/
def Operator.apply (op : Operator) : Float → Float → Float := op.applyBy .native

/-- The value of an operator, by its spelling, between two operands. -/
def binaryValue (symbol : Text) (left right : Float) : Except EvalError Float :=
  match Operator.ofSymbol? symbol with
  | some op => .ok (op.apply left right)
  | none => .error (.unknownBinary symbol)

/-- Turn the fault of a single step into one of a computation with room. -/
def Bounded.lift {ε α : Type} : Except ε α → Except (Bounded ε) α
  | .ok value => .ok value
  | .error e => .error (.fault e)

namespace Expr

/-- The function that a callee names. To say that it names none, the callee is written out,
which takes two levels of room for each of its own. -/
def functionOf (room : Room) (callee : Expr) : Except (Bounded EvalError) Function :=
  let found := match callee with
    | .name spelling => Function.ofName? spelling
    | _ => none
  match found with
  | some f => .ok f
  | none =>
    if room.admits (2 * callee.depth) then .error (.fault (.notFunction callee))
    else .error .tooDeep

/-- The value of an expression; none is the undefined value. -/
def eval (unit : AngleUnit) : Room → Expr → Except (Bounded EvalError) (Option Float)
  | room, .number value => room.enter fun _ => .ok (some value)
  | room, .name spelling => room.enter fun _ => Bounded.lift (nameValue spelling)
  | room, .unary symbol operand => room.enter fun room => do
    let value ← eval unit room operand
    some <$> Bounded.lift (unaryValue symbol (operandValue value))
  | room, .binary symbol left right => room.enter fun room => do
    let leftValue ← eval unit room left
    let rightValue ← eval unit room right
    some <$> Bounded.lift
      (binaryValue symbol (operandValue leftValue) (operandValue rightValue))
  | room, .call callee argument => room.enter fun room => do
    let f ← functionOf room callee
    let value ← (if argument.isMissing then .ok none else eval unit room argument)
    return some (f.apply unit (operandValue value))
  | room, .bare => room.enter fun _ => .error (.fault .bareNode)
  | room, .missing => room.enter fun _ => .error (.fault .missingNode)

variable {unit : AngleUnit} {room : Room} {callee argument : Expr}

theorem eval_call (present : argument ≠ .missing) : eval unit room (.call callee argument) =
    room.enter fun room => do
      let f ← functionOf room callee
      let value ← eval unit room argument
      return some (f.apply unit (operandValue value)) := by
  rw [eval, isMissing_eq_false_iff.mpr present]
  rfl

/-- Without an argument a function is asked for its value where there is no number. -/
theorem eval_call_missing : eval unit room (.call callee .missing) = room.enter fun room => do
    let f ← functionOf room callee
    return some (f.apply unit Arithmetic.nan) :=
  rfl

end Expr

end Keypad
