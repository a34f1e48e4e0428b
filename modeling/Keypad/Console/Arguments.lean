import Keypad.Angle
import Keypad.Text.DecimalDigit

/-!
# Arguments

The command line takes three flags. Two of them have a value, which follows as the next word
or behind an equals sign. A long name may be cut short as long as no other name begins so.

Every word is told apart on its own before any of them takes effect, so an ambiguous name is
refused wherever it stands. Then the words take effect from left to right: the first request
for help or misuse ends the program. A word that belongs to nothing is misuse as well, but
only after all others had their turn.

In two corners older and newer releases of the reader of command lines disagree, and the older
ones are meant. `--log-level=--` takes the log level back, where the newer ones take the two
minus signs for its value. `-hx` is misuse, where the newer ones give help.
-/

namespace Keypad.Console

/-- A flag. -/
inductive Flag where
  | help
  | angle
  | logLevel
  deriving DecidableEq

/-- The names of the flags. -/
def flagNames : List (Text × Flag) := [
  ("-h".toList, .help), ("--help".toList, .help), ("--angle".toList, .angle),
  ("--log-level".toList, .logLevel)]

/-- What a word of the command line is. -/
inductive Word where
  /-- A flag, with the value that is part of the word. -/
  | flag (flag : Flag) (value : Option Text)
  /-- A text that may be the value of the flag before it. -/
  | plain (text : Text)
  /-- A word that neither is a flag nor may be a value. -/
  | stray
  /-- The beginning of the names of more than one flag. -/
  | ambiguous

namespace Word

/-- Split a word at its first equals sign. -/
def splitValue (word : Text) : Text × Option Text :=
  match word.dropWhile (· != '=') with
  | [] => (word, none)
  | _ :: value => (word.takeWhile (· != '='), some value)

/-- A minus sign before digits with at most one decimal point, which is not last. One line
break may follow. -/
def isNegativeNumber : Text → Bool
  | '-' :: text =>
    let body := if text.getLast? == some '\n' then text.dropLast else text
    match body.dropWhile Text.isDecimalDigit with
    | [] => !body.isEmpty
    | '.' :: places => !places.isEmpty && places.all Text.isDecimalDigit
    | _ => false
  | _ => false

/-- A word that begins with a minus sign and names no flag: a plain text only if it looks like
a number or has a space in it. -/
def unnamed (word : Text) : Word :=
  if isNegativeNumber word || word.contains ' ' then .plain word else .stray

/-- What follows the short name of help in one word, perhaps behind an equals sign. The name
may be repeated by its letter; anything else is a value, and help has none. (Newer readers of
command lines give help before they look at what follows.) -/
def afterShortHelp (rest : Text) : Word :=
  let letters := if rest.head? == some '=' then rest.drop 1 else rest
  .flag .help (if !letters.isEmpty && letters.all (· == 'h') then none else some letters)

/-- A word that begins with two minus signs: the beginning of a long name, perhaps with a
value. -/
def ofLong (word : Text) : Word :=
  let (name, value) := splitValue word
  match flagNames.filter (name.isPrefixOf ·.1) with
  | [] => unnamed word
  | [(_, named)] => .flag named value
  | _ => .ambiguous

/-- What a word is, on its own. -/
def ofText (word : Text) : Word :=
  match flagNames.lookup word with
  | some named => .flag named none
  | none =>
    match word with
    | '-' :: '-' :: _ => ofLong word
    | '-' :: 'h' :: rest => afterShortHelp rest
    | '-' :: _ :: _ => unnamed word
    | _ => .plain word

/-- What the words of a command line are. After two minus signs that stand alone every word is
a plain text. -/
def ofTexts : List Text → List Word
  | [] => []
  | word :: rest =>
    if word == "--".toList then .stray :: rest.map plain else ofText word :: ofTexts rest

end Word

/-- Why the command line ends the program. -/
inductive Stop where
  | help
  | misuse
  deriving DecidableEq

/-- The exit code of a program that ends so. -/
def Stop.exitCode : Stop → Nat
  | .help => 0
  | .misuse => 2

/-- What the command line says. -/
structure Arguments where
  angleUnit : Option AngleUnit
  logLevel : Option Text

namespace Arguments

/-- Nothing said. -/
def none : Arguments := ⟨.none, .none⟩

/-- Give a flag its value. -/
def set (arguments : Arguments) (flag : Flag) (value : Text) : Except Stop Arguments :=
  match flag with
  | .help => .error .misuse
  | .logLevel => .ok { arguments with logLevel := some value }
  | .angle =>
    match AngleUnit.ofName? value with
    | some unit => .ok { arguments with angleUnit := some unit }
    | .none => .error .misuse

/-- Forget the value of a flag. -/
def unset (arguments : Arguments) : Flag → Arguments
  | .help => arguments
  | .angle => { arguments with angleUnit := .none }
  | .logLevel => { arguments with logLevel := .none }

/-- Give a flag the value that is part of its word. Two minus signs stand for no value, so
they take back what was said before. (To newer readers of command lines they are a value like
any other.) -/
def setAttached (arguments : Arguments) (flag : Flag) (value : Text) : Except Stop Arguments :=
  if value == "--".toList && flag != .help then .ok (arguments.unset flag)
  else arguments.set flag value

/-- Let the words take effect, from left to right. -/
def take : Arguments → List Word → Except Stop Arguments
  | arguments, [] => .ok arguments
  | _, .flag .help .none :: _ => .error .help
  | arguments, .flag flag (some value) :: rest =>
    match arguments.setAttached flag value with
    | .ok arguments => take arguments rest
    | .error stop => .error stop
  | arguments, .flag flag .none :: .plain value :: rest =>
    match arguments.set flag value with
    | .ok arguments => take arguments rest
    | .error stop => .error stop
  | _, .flag _ .none :: _ => .error .misuse
  | arguments, _ :: rest =>
    match take arguments rest with
    | .ok _ => .error .misuse
    | .error stop => .error stop

/-- What a command line says. -/
def ofTexts (texts : List Text) : Except Stop Arguments :=
  let words := Word.ofTexts texts
  if words.any (fun | .ambiguous => true | _ => false) then .error .misuse
  else none.take words

end Arguments

end Keypad.Console
