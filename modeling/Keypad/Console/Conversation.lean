import Keypad.Console.Line

/-!
# Conversations

A conversation asks for lines until the input ends or a line says so. What it prints is
decided by the lines alone: every line is asked for once, a blank one is passed over, and an
interrupt only takes the line being typed.
-/

namespace Keypad.Console

/-- What comes when a line is asked for. -/
inductive Event where
  | line (text : Text)
  | interrupt

/-- Whether and how a conversation goes on. -/
inductive Progress where
  | continuing (next : Calculator)
  | finished
  | failed (fault : ActionFault)

/-- What a conversation begins with. -/
def greeting : Text :=
  "Keypad calculator. Type :help for help. Ctrl-D or :exit to quit.\n".toList

/-- What a conversation ends with. -/
def farewell : Text := "Exiting.\n".toList

/-- What an event prints, and how the conversation goes on. -/
def respond (c : Calculator) : Event → Text × Progress
  | .interrupt => ("^C\n".toList, .continuing c)
  | .line line =>
    if line.all Text.isBlank then ([], .continuing c)
    else
      match runLine c line with
      | (c, .text _ text) => (text ++ ['\n'], .continuing c)
      | (_, .leave) => (farewell, .finished)
      | (_, .fault fault) => ([], .failed fault)

/-- A whole conversation. -/
structure Transcript where
  /-- How many times a line was asked for. -/
  requests : Nat
  output : Text
  fault : Option ActionFault

/-- The conversation that events make from a calculator on. After the last of them the input
ends. -/
def converse (c : Calculator) : List Event → Transcript
  | [] => ⟨1, farewell, none⟩
  | event :: rest =>
    match respond c event with
    | (text, .continuing c) =>
      let later := converse c rest
      ⟨later.requests + 1, text ++ later.output, later.fault⟩
    | (text, .finished) => ⟨1, text, none⟩
    | (text, .failed fault) => ⟨1, text, some fault⟩

end Keypad.Console
