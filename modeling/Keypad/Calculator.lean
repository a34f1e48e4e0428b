import Keypad.Calculate
import Keypad.History
import Keypad.Key

/-!
# Calculators

The state of a keypad calculator and what each action does to it. The pending expression is
what the display shows. While it holds an operator, a preview shows what it would come to;
the preview is worked out anew after every action, so it always belongs to the expression on
the display. Committing an expression replaces it by its result and adds an entry to the
history.

An action that raises a fault leaves the state as it was, the preview included. The one thing
it can use up is a reading of the clock.
-/

namespace Keypad

/-- The pending expression. -/
inductive Pending where
  /-- What has been typed; nothing has if the text is empty. -/
  | typed (text : Text)
  | failed (kind : ErrorKind)
  deriving DecidableEq

namespace Pending

/-- The text that the next key is added to. -/
def text : Pending → Text
  | .typed text => text
  | .failed _ => []

/-- What the display shows. -/
def display : Pending → Text
  | .typed [] => ['0']
  | .typed text => text
  | .failed kind => kind.label

end Pending

/-- A calculator at one moment. -/
structure Calculator where
  pending : Pending
  preview : Option Text
  unit : AngleUnit
  memory : Float
  /-- The committed calculations since the history was last cleared, the oldest first. -/
  history : List HistoryEntry
  /-- What the clock will read next; it goes up by one with each reading. -/
  clock : Int

/-- Why an action raises: the number in memory has no text, or the commit makes no history entry. -/
inductive ActionFault where
  | render (fault : RenderFault)
  | entry (issues : List Issue)

/-- A calculator after an action, and the fault it raised if it raised one. -/
structure Reaction where
  after : Calculator
  fault : Option ActionFault

namespace Calculator

/-- A calculator that has just been switched on. -/
def new (unit : AngleUnit) (clock : Int) : Calculator :=
  ⟨.typed [], none, unit, 0, [], clock⟩

/-- The operators and functions that ask for a preview, as they stand in a text. -/
def previewTriggers : List Text :=
  [['+'], ['-'], ['×'], ['÷'], ['%'], ['^'], "sin".toList, "cos".toList, "tan".toList,
    "log".toList, "ln".toList, ['√']]

/-- Whether a text asks for a preview. -/
def wantsPreview (text : Text) : Bool := previewTriggers.any (·.occurs text)

/-- How the calculation of a text ends, in the angle unit in force. -/
def resultOf (c : Calculator) (text : Text) : Result := calculate .standard c.unit text

/-- The preview that belongs to the pending expression. -/
def currentPreview (c : Calculator) : Option Text :=
  if wantsPreview c.pending.text then (c.resultOf c.pending.text).text? else none

/-- The session with the preview of its pending expression. -/
def refresh (c : Calculator) : Calculator := { c with preview := c.currentPreview }

/-- The session with another text typed. -/
def type (c : Calculator) (text : Text) : Calculator := { c with pending := .typed text }

/-- The operators that may open an expression, with the functions and constants. -/
def starters : List Text := ['-'] :: Key.functions ++ Key.constants

/-- Whether a text ends in an operator that stands between two operands. -/
def endsInBinary (text : Text) : Bool :=
  match text.getLast? with
  | some c => Key.binaryOperators.contains [c]
  | none => false

/-- The text after an operator: on an empty text only a starter is accepted, and of two
binary operators in a row the second replaces the first. -/
def withOperator (text op : Text) : Text :=
  if text.isEmpty && !starters.contains op then []
  else if endsInBinary text && Key.binaryOperators.contains op then text.dropLast ++ op
  else text ++ op

/-- The text after the smart parenthesis: it closes if a parenthesis is open and an operand
stands before it, and opens otherwise. -/
def withSmartParenthesis (text : Text) : Text :=
  let isOpen := text.count ')' < text.count '('
  if isOpen && !(endsInBinary text || text.getLast? == some '(') then text ++ [')']
  else text ++ ['(']

/-- The text without its last key: a function goes as a whole, anything else by character. -/
def withoutLast (text : Text) : Text :=
  match Key.functions.find? (·.isSuffixOf text) with
  | some function => text.take (text.length - function.length)
  | none => text.dropLast

/-- The text with its leading minus sign put there or taken away. -/
def withSignToggled : Text → Text
  | '-' :: rest => rest
  | text => '-' :: text

/-- The number that the memory keys add and subtract: the result of the pending expression,
read back from its text. Nothing typed counts as zero, and an expression without a result
has none. -/
def currentValue (c : Calculator) : Option Float :=
  match c.pending with
  | .failed _ => none
  | .typed text =>
    (c.resultOf (if text.isEmpty then ['0'] else text)).text?.bind Decimal.readDouble?

/-- The session with the memory changed by the current value, if there is one. -/
def updateMemory (c : Calculator) (change : Float → Float → Float) : Calculator :=
  match c.currentValue with
  | some value => { c with memory := change c.memory value }
  | none => c

/-- Commit the pending expression. Only a success reads the clock. -/
def commit (c : Calculator) : Reaction :=
  match c.pending with
  | .failed _ | .typed [] => ⟨c, none⟩
  | .typed text =>
    match c.resultOf text with
    | .failure kind => ⟨{ c with pending := .failed kind }, none⟩
    | .success value =>
      let ticked := { c with clock := c.clock + 1 }
      match HistoryEntry.make text (resultText value) c.clock with
      | .error issues => ⟨ticked, some (.entry issues)⟩
      | .ok entry =>
        ⟨{ ticked with pending := .typed entry.result, history := c.history ++ [entry] }, none⟩

/-- What an action does, before the preview is worked out anew. -/
def handle (c : Calculator) : Action → Reaction
  | .input text => ⟨c.type (c.pending.text ++ text), none⟩
  | .operator op => ⟨c.type (withOperator c.pending.text op), none⟩
  | .smartParenthesis => ⟨c.type (withSmartParenthesis c.pending.text), none⟩
  | .clear => ⟨c.type [], none⟩
  | .backspace => ⟨c.type (withoutLast c.pending.text), none⟩
  | .equals => c.commit
  | .toggleSign => ⟨c.type (withSignToggled c.pending.text), none⟩
  | .toggleAngle => ⟨{ c with unit := c.unit.toggled }, none⟩
  | .memoryClear => ⟨{ c with memory := 0 }, none⟩
  | .memoryRecall =>
    match numberText? c.memory with
    | .ok text => ⟨c.type (c.pending.text ++ text), none⟩
    | .error fault => ⟨c, some (.render fault)⟩
  | .memoryAdd => ⟨c.updateMemory (· + ·), none⟩
  | .memorySubtract => ⟨c.updateMemory (· - ·), none⟩

/-- Perform an action. -/
def perform (c : Calculator) (action : Action) : Reaction :=
  let reaction := c.handle action
  match reaction.fault with
  | none => ⟨reaction.after.refresh, none⟩
  | some fault => ⟨reaction.after, some fault⟩

/-- Perform actions one after the other, up to the first that raises a fault. -/
def performAll (c : Calculator) : List Action → Reaction
  | [] => ⟨c, none⟩
  | action :: rest =>
    let reaction := c.perform action
    match reaction.fault with
    | none => performAll reaction.after rest
    | some _ => reaction

/-- Forget the history. -/
def clearHistory (c : Calculator) : Calculator := { c with history := [] }

end Calculator

end Keypad
