import Keypad.Text.LetterCase

/-!
# Help

The help texts, by topic.
-/

namespace Keypad.Console

/-- What help says without a topic. -/
def generalHelp : Text := String.toList <|
  "Keypad calculator help:\n" ++
  "Type key presses separated by spaces, or run them together.\n" ++
  "Examples:\n" ++
  "  12+7=            -> 19\n" ++
  "  sin(90) =        -> 1 (degrees)\n" ++
  "  2 ^ 10 =         -> 1024\n" ++
  "  50%              -> preview 0.5\n" ++
  "Commands:\n" ++
  "  :help [keys]           show help\n" ++
  "  :history               show committed calculations\n" ++
  "  :clear-history         forget committed calculations\n" ++
  "  :memory                show the memory register\n" ++
  "  :angle                 show the angle unit\n" ++
  "  :exit                  exit\n"

/-- What help says about the keys. -/
def keysHelp : Text := String.toList <|
  "Keys:\n" ++
  "  0-9 .  π (pi) e  ( and )      input\n" ++
  "  + - × (*) ÷ (/) % ^           operators\n" ++
  "  sin cos tan log ln √ (sqrt)   functions, open a parenthesis\n" ++
  "  C  DEL  =  +/-  ( )           clear, backspace, equals, sign, smart parenthesis\n" ++
  "  DEG (RAD)                     toggle degrees/radians\n" ++
  "  MC MR M+ M-                   memory\n"

/-- The topics. -/
def helpTopics : List (Text × Text) :=
  [("general".toList, generalHelp), ("keys".toList, keysHelp)]

/-- What help says about a topic, named in any letter case. No topic and an empty one are the
general one. -/
def helpText : Option Text → Text
  | none | some [] => generalHelp
  | some topic =>
    (helpTopics.lookup topic.lower).getD
      ("No help available for topic '".toList ++ topic ++ ['\x27'])

end Keypad.Console
