import Keypad.Console.Arguments
import Keypad.Console.Conversation
import Keypad.Settings

/-!
# The program

Arguments, settings, conversation, in this order; each is reached only if the one before it
went well.
-/

namespace Keypad.Console

/-- Why the program ends before the conversation. -/
inductive Refusal where
  | stopped (stop : Stop)
  | invalid (issues : List Issue)

/-- The settings the program runs with. -/
def configure (texts : List Text) (environment : Variables) (file : Option Text) :
    Except Refusal Settings :=
  match Arguments.ofTexts texts with
  | .error stop => .error (.stopped stop)
  | .ok arguments =>
    match Settings.load environment file with
    | .error issues => .error (.invalid issues)
    | .ok settings =>
      match settings.override arguments.angleUnit arguments.logLevel with
      | .error issues => .error (.invalid issues)
      | .ok settings => .ok settings

/-- The calculator the program starts with. -/
def firstCalculator (settings : Settings) : Calculator := Calculator.new settings.angleUnit 0

/-- What the program does from its start to its end. -/
structure Run where
  /-- The prompt of each request for a line. -/
  prompts : List Text
  output : Text
  fault : Option ActionFault

/-- A run of the program on given events. -/
def run (texts : List Text) (environment : Variables) (file : Option Text)
    (events : List Event) : Except Refusal Run :=
  match configure texts environment file with
  | .error refusal => .error refusal
  | .ok settings =>
    let transcript := converse (firstCalculator settings) events
    .ok ⟨List.replicate transcript.requests settings.prompt, greeting ++ transcript.output,
      transcript.fault⟩

end Keypad.Console
