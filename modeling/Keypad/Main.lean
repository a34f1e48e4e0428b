import Keypad.Console.Program

/-!
# The command line program

Reads lines from the standard input and prints what the conversation answers to them. What is
said, and when it ends, is decided by `Console.configure` and `Console.respond`.
-/

namespace Keypad.Console

/-- How the program is used. -/
def usage : String := "usage: keypad [-h] [--angle deg|rad] [--log-level LEVEL]"

/-- The environment variables that hold settings. -/
def settingVariables : List Text :=
  ["angle_unit".toList, "log_level".toList, "prompt".toList].map Variables.nameOf

/-- The settings in the environment of the program. -/
def readEnvironment : IO Variables :=
  settingVariables.filterMapM fun name => do
    let value ← IO.getEnv (String.ofList name)
    return value.map fun value => (name, value.toList)

/-- Print a text without delay. -/
def put (text : Text) : IO Unit := do
  let out ← IO.getStdout
  out.putStr (String.ofList text)
  out.flush

/-- Ask for lines and answer them until the conversation is over; the result is the exit
code. -/
partial def talk (prompt : Text) (c : Calculator) : IO UInt32 := do
  put prompt
  let line ← (← IO.getStdin).getLine
  if line.isEmpty then
    put farewell
    return 0
  let (text, progress) := respond c (.line line.toList)
  put text
  match progress with
  | .continuing c => talk prompt c
  | .finished => return 0
  | .failed _ =>
    IO.eprintln "error: the number in memory is too large to show"
    return 1

/-- Run the program; the result is its exit code. -/
def start (arguments : List String) : IO UInt32 := do
  match configure (arguments.map String.toList) (← readEnvironment) none with
  | .error (.stopped .help) =>
    IO.println usage
    return 0
  | .error (.stopped .misuse) =>
    IO.eprintln usage
    return 2
  | .error (.invalid issues) =>
    for issue in issues do
      IO.eprintln (String.ofList (issue.field ++ ": ".toList ++ issue.complaint.message))
    return 1
  | .ok settings =>
    put greeting
    talk settings.prompt (firstCalculator settings)

end Keypad.Console

/-- The entry point. -/
def main (arguments : List String) : IO UInt32 := Keypad.Console.start arguments
