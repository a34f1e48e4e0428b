import Keypad.Text.Blank
import Keypad.Text.LetterCase
import Keypad.Text.Quoted

/-!
# Keys

A key is found by its label or by one of the aliases that a keyboard can type. Pressing it is
an action: text to insert, an operator to insert by the rules for operators, or a command.
Labels may have blanks around them, and those of commands may be in any letter case.
-/

namespace Keypad

/-- What a key does. -/
inductive Action where
  | input (text : Text)
  /-- Insert an operator or a function. -/
  | operator (text : Text)
  /-- Insert whichever parenthesis fits. -/
  | smartParenthesis
  | clear
  | backspace
  | equals
  /-- Put a minus sign in front, or take it away. -/
  | toggleSign
  | toggleAngle
  | memoryClear
  | memoryRecall
  | memoryAdd
  | memorySubtract
  deriving DecidableEq

/-- Why there is no action. -/
inductive KeyError where
  | unknownKey (label : Text)
  | unknownKind (kind : Text)
  | notDigit (text : Text)
  | notConstant (text : Text)
  | notParenthesis (text : Text)
  | notOperator (text : Text)
  | notFunction (text : Text)
  deriving DecidableEq

/-- What the fault says. -/
def KeyError.message : KeyError → Text
  | .unknownKey label => "Unknown key: ".toList ++ Text.quoted label
  | .unknownKind kind => "Unsupported action: ".toList ++ kind
  | .notDigit text => "Not a digit key: ".toList ++ Text.quoted text
  | .notConstant text => "Not a constant key: ".toList ++ Text.quoted text
  | .notParenthesis text => "Not a parenthesis key: ".toList ++ Text.quoted text
  | .notOperator text => "Not an operator key: ".toList ++ Text.quoted text
  | .notFunction text => "Not a function key: ".toList ++ Text.quoted text

namespace Key

/-- The digit keys, with the decimal point. -/
def digits : List Text := "0123456789.".toList.map ([·])

/-- The constant keys. -/
def constants : List Text := [['π'], ['e']]

/-- The parenthesis keys. -/
def parentheses : List Text := [['('], [')']]

/-- The operator keys that stand between two operands. -/
def binaryOperators : List Text := [['+'], ['-'], ['×'], ['÷']]

/-- The operator keys. -/
def operators : List Text := binaryOperators ++ [['%'], ['^']]

/-- The function keys; each opens a parenthesis. -/
def functions : List Text :=
  ["sin(".toList, "cos(".toList, "tan(".toList, "log(".toList, "ln(".toList, "√(".toList]

/-- The labels of the constants, with the aliases. -/
def constantLabels : List (Text × Text) :=
  [("pi".toList, ['π']), (['π'], ['π']), (['e'], ['e'])]

/-- The labels of the operators, with the aliases. -/
def operatorLabels : List (Text × Text) := [
  (['+'], ['+']), (['-'], ['-']), (['×'], ['×']), (['*'], ['×']), (['÷'], ['÷']),
  (['/'], ['÷']), (['%'], ['%']), (['^'], ['^'])]

/-- The labels of the functions, with the aliases. -/
def functionLabels : List (Text × Text) := [
  ("sin".toList, "sin(".toList), ("sin(".toList, "sin(".toList),
  ("cos".toList, "cos(".toList), ("cos(".toList, "cos(".toList),
  ("tan".toList, "tan(".toList), ("tan(".toList, "tan(".toList),
  ("log".toList, "log(".toList), ("log(".toList, "log(".toList),
  ("ln".toList, "ln(".toList), ("ln(".toList, "ln(".toList),
  ("√".toList, "√(".toList), ("√(".toList, "√(".toList),
  ("sqrt".toList, "√(".toList), ("sqrt(".toList, "√(".toList)]

/-- The labels of the commands, in upper case. -/
def commandLabels : List (Text × Action) := [
  ("C".toList, .clear), ("AC".toList, .clear),
  ("⌫".toList, .backspace), ("DEL".toList, .backspace), ("BS".toList, .backspace),
  ("=".toList, .equals),
  ("+/-".toList, .toggleSign), ("±".toList, .toggleSign),
  ("DEG".toList, .toggleAngle), ("RAD".toList, .toggleAngle), ("ANGLE".toList, .toggleAngle),
  ("( )".toList, .smartParenthesis), ("()".toList, .smartParenthesis),
  ("MC".toList, .memoryClear), ("MR".toList, .memoryRecall),
  ("M+".toList, .memoryAdd), ("M-".toList, .memorySubtract)]

/-- All labels, in code point order. -/
def labels : List Text :=
  (digits ++ constantLabels.map (·.1) ++ parentheses ++ operatorLabels.map (·.1) ++
    functionLabels.map (·.1) ++ commandLabels.map (·.1)).eraseDups.mergeSort Text.atMost

end Key

namespace Action

/-- The name of the kind of an action. -/
def kind : Action → Text
  | .input _ => "input".toList
  | .operator _ => "operator".toList
  | .smartParenthesis => "smart_paren".toList
  | .clear => "clear".toList
  | .backspace => "backspace".toList
  | .equals => "equals".toList
  | .toggleSign => "toggle_sign".toList
  | .toggleAngle => "toggle_angle".toList
  | .memoryClear => "memory_clear".toList
  | .memoryRecall => "memory_recall".toList
  | .memoryAdd => "memory_add".toList
  | .memorySubtract => "memory_subtract".toList

/-- The text that an action inserts, empty for one that inserts none of its own. -/
def value : Action → Text
  | .input text | .operator text => text
  | _ => []

/-- The actions that carry no text. -/
def commands : List Action :=
  [smartParenthesis, clear, backspace, equals, toggleSign, toggleAngle, memoryClear,
    memoryRecall, memoryAdd, memorySubtract]

/-- The action of a kind, given by name, and a text. -/
def ofKind (kind value : Text) : Except KeyError Action :=
  match (input value :: operator value :: commands).find? (·.kind == kind) with
  | some action => .ok action
  | none => .error (.unknownKind kind)

/-- Insert a digit or the decimal point. -/
def digit (text : Text) : Except KeyError Action :=
  if Key.digits.contains text then .ok (.input text) else .error (.notDigit text)

/-- Insert a constant. -/
def constant (text : Text) : Except KeyError Action :=
  if Key.constants.contains text then .ok (.input text) else .error (.notConstant text)

/-- Insert a parenthesis. -/
def parenthesis (text : Text) : Except KeyError Action :=
  if Key.parentheses.contains text then .ok (.input text) else .error (.notParenthesis text)

/-- Insert an operator. -/
def operatorKey (text : Text) : Except KeyError Action :=
  if Key.operators.contains text then .ok (.operator text) else .error (.notOperator text)

/-- Insert a function, named with or without its parenthesis. -/
def function (text : Text) : Except KeyError Action :=
  let opened := if text.getLast? == some '(' then text else text ++ ['(']
  if Key.functions.contains opened then .ok (.operator opened) else .error (.notFunction text)

/-- The action of the key with a label. -/
def ofLabel (label : Text) : Except KeyError Action :=
  let key := label.trim
  if Key.digits.contains key || Key.parentheses.contains key then .ok (.input key)
  else
    match Key.constantLabels.lookup key with
    | some text => .ok (.input text)
    | none =>
      match Key.operatorLabels.lookup key with
      | some text => .ok (.operator text)
      | none =>
        match Key.functionLabels.lookup key with
        | some text => .ok (.operator text)
        | none =>
          match Key.commandLabels.lookup key.upper with
          | some action => .ok action
          | none => .error (.unknownKey label)

end Action

end Keypad
