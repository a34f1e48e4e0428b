import Keypad.Canonical
import Keypad.Expr.Eval
import Keypad.Expr.OfTokens
import Keypad.Result

/-!
# Calculating

From what the keypad writes to how the calculation ends. Each phase has its own error: a
denominator that is written out as zero, a text that is no expression, an expression without
a value, a value that is no finite number. The first phase that fails decides.
-/

namespace Keypad

/-- Why a canonical text has no value. -/
inductive TextFault where
  | text (error : TextError)
  | value (error : EvalError)

/-- What the fault says. -/
def TextFault.message : TextFault → Text
  | .text e => e.message
  | .value e => e.message

/-- The value of the expression that a canonical text spells. -/
def valueOfText (limits : Limits) (unit : AngleUnit) (text : Text) :
    Except (Bounded TextFault) (Option Float) :=
  match Expr.ofText limits.reading text with
  | .error (.fault e) => .error (.fault (.text e))
  | .error .tooDeep => .error .tooDeep
  | .ok e =>
    match e.eval unit limits.evaluating with
    | .error (.fault e) => .error (.fault (.value e))
    | .error .tooDeep => .error .tooDeep
    | .ok value => .ok value

/-- How the evaluation of a canonical form ends. -/
def Canonical.result (limits : Limits) (unit : AngleUnit) (c : Canonical) : Result :=
  if c.dividesByZero then .failure .divideByZero
  else
    match valueOfText limits unit c.text with
    | .error (.fault (.text _)) => .failure .invalidFormat
    | .error _ => .failure .generic
    | .ok value => .ofValue value

/-- How the calculation of a keypad text ends. -/
def calculate (limits : Limits) (unit : AngleUnit) (text : Text) : Result :=
  (Canonical.ofKeypad text).result limits unit

/-- How the calculation of a keypad text ends, if there is anything to calculate: an empty
text has no result. -/
def calculate? (limits : Limits) (unit : AngleUnit) (text : Text) : Option Result :=
  if text.isEmpty then none else some (calculate limits unit text)

end Keypad
