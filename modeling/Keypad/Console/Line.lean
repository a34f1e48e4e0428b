import Keypad.Calculator
import Keypad.Console.Help
import Keypad.KeyLine

/-!
# Lines

What a line does to a calculator and what is answered to it. A line that begins with a colon
is a command; any other line names keys. The keys of a line are pressed only if all of them
are labels, so a line with a typing error changes nothing.
-/

namespace Keypad.Console

/-- The answer to a line. -/
inductive Answer where
  /-- A text; false if the line made no sense. -/
  | text (ok : Bool) (text : Text)
  | leave
  | fault (fault : ActionFault)

/-- The number in memory, for the eye. -/
def memoryLine (c : Calculator) : Except RenderFault Text :=
  ("M: ".toList ++ ·) <$> numberText? c.memory

/-- The angle unit and the display, for the eye. -/
def displayLine (c : Calculator) : Text :=
  '[' :: c.unit.name ++ "] ".toList ++ c.pending.display

/-- A calculator for the eye: the memory unless it is zero, the display, and the preview if
there is one, each on a line of its own. -/
def render (c : Calculator) : Except RenderFault Text := do
  let memory ← if c.memory == 0 then pure [] else (fun line => [line]) <$> memoryLine c
  let preview := c.preview.toList.map ("= ".toList ++ ·)
  return Text.joinWith ['\n'] (memory ++ displayLine c :: preview)

/-- The history for the eye, a line for each entry. -/
def historyText : List HistoryEntry → Text
  | [] => "(no history)".toList
  | entries =>
    Text.joinWith ['\n'] (entries.map fun entry =>
      entry.expression ++ " = ".toList ++ entry.result)

/-- The answer that shows a rendered text. -/
def Answer.ofRendered : Except RenderFault Text → Answer
  | .ok shown => .text true shown
  | .error reason => .fault (.render reason)

/-- Press the keys that a line names and show the calculator. -/
def runKeys (c : Calculator) (line : Text) : Calculator × Answer :=
  match KeyLine.actionsOf (KeyLine.keysOf line) with
  | .error e => (c, .text false ("Error: ".toList ++ e.message))
  | .ok actions =>
    let reaction := c.performAll actions
    match reaction.fault with
    | some fault => (reaction.after, .fault fault)
    | none => (reaction.after, .ofRendered (render reaction.after))

/-- Carry out a command, named in any letter case. -/
def runCommand (c : Calculator) (command : Text) (topic : Option Text) : Calculator × Answer :=
  let name := command.lower
  if name == "exit".toList || name == "quit".toList then (c, .leave)
  else if name == "help".toList then (c, .text true (helpText topic))
  else if name == "history".toList then (c, .text true (historyText c.history))
  else if name == "clear-history".toList then
    (c.clearHistory, .text true "History cleared".toList)
  else if name == "memory".toList then (c, .ofRendered (memoryLine c))
  else if name == "angle".toList then (c, .text true ("Angle unit: ".toList ++ c.unit.name))
  else (c, .text true ("Unknown command: ".toList ++ command))

/-- What a line does to a calculator, and the answer to it. -/
def runLine (c : Calculator) (line : Text) : Calculator × Answer :=
  match line.trim with
  | ':' :: rest =>
    match Text.words rest with
    | [] =>
      (c, .text false "No command specified. Use :help for available commands.".toList)
    | command :: others => runCommand c command others.head?
  | keys => runKeys c keys

end Keypad.Console
