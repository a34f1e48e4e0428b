import Keypad.Angle
import Keypad.Record
import Keypad.Text.LetterCase

/-!
# Settings

A calculator starts with an angle unit, a log level and a prompt. Each of them comes from the
first of these places that has it: a flag on the command line, the environment, a file of
plain `NAME=value` lines, the default. Values from the environment and the file are checked even if
a flag stands over them.
-/

namespace Keypad

/-- How much is logged. -/
inductive LogLevel where
  | critical
  | error
  | warning
  | info
  | debug
  deriving DecidableEq

namespace LogLevel

/-- The name of a level. -/
def name : LogLevel → Text
  | .critical => "CRITICAL".toList
  | .error => "ERROR".toList
  | .warning => "WARNING".toList
  | .info => "INFO".toList
  | .debug => "DEBUG".toList

/-- All levels. -/
def all : List LogLevel := [critical, error, warning, info, debug]

/-- The level that a text names, in any letter case and with blanks around it. -/
def ofText? (text : Text) : Option LogLevel := all.find? (·.name == text.trim.upper)

end LogLevel

/-- What a calculator starts with. -/
structure Settings where
  angleUnit : AngleUnit
  logLevel : LogLevel
  prompt : Text
  deriving DecidableEq

namespace Settings

/-- The settings where nothing else is said. -/
def standard : Settings := ⟨.degrees, .warning, "> ".toList⟩

/-- Check an angle unit. -/
def checkAngleUnit : FieldValue → Except Complaint AngleUnit
  | .text name =>
    match AngleUnit.ofName? name with
    | some unit => .ok unit
    | none => .error .notAngleUnit
  | _ => .error .notAngleUnit

/-- Check a text that should name a log level. -/
def checkLogLevel (text : Text) : Except Complaint LogLevel :=
  match LogLevel.ofText? text with
  | some level => .ok level
  | none => .error (.refused ("Unknown log level: ".toList ++ text))

/-- Check a prompt. -/
def checkPrompt (text : Text) : Except Complaint Text :=
  if text.isEmpty then .error .emptyText else .ok text

/-- The settings of checked parts, or the issues of all of them. -/
def ofChecked (angleUnit : Except Complaint AngleUnit) (logLevel : Except Complaint LogLevel)
    (prompt : Except Complaint Text) : Except (List Issue) Settings :=
  match angleUnit, logLevel, prompt with
  | .ok angleUnit, .ok logLevel, .ok prompt => .ok ⟨angleUnit, logLevel, prompt⟩
  | _, _, _ =>
    .error (issuesOf "angle_unit".toList angleUnit ++ issuesOf "log_level".toList logLevel ++
      issuesOf "prompt".toList prompt)

/-- The settings that fields from outside describe; what they leave out is standard. -/
def ofFields (fields : Fields) : Except (List Issue) Settings :=
  ofChecked
    (fields.optional "angle_unit".toList standard.angleUnit checkAngleUnit)
    (fields.optional "log_level".toList standard.logLevel fun value =>
      value.toText >>= checkLogLevel)
    (fields.optional "prompt".toList standard.prompt fun value => value.toText >>= checkPrompt)

end Settings

/-- Named texts, such as the environment of a program. -/
abbrev Variables := List (Text × Text)

namespace Variables

/-- The lines of a file; a line ends with a line feed, a carriage return, or both. -/
def lines : Text → List Text
  | [] => [[]]
  | '\r' :: '\n' :: rest => [] :: lines rest
  | c :: rest =>
    if c == '\n' || c == '\r' then [] :: lines rest
    else
      match lines rest with
      | [] => [[c]]
      | line :: others => (c :: line) :: others

/-- A text up to the first number sign that has a blank before it. -/
def withoutComment : Text → Text
  | [] => []
  | c :: rest =>
    if Text.isBlank c && rest.head? == some '#' then [] else c :: withoutComment rest

/-- The variable that a line of a file sets: a name and a value with an equals sign between
them, and blanks around both that do not count. A comment sets none. -/
def ofLine? (line : Text) : Option (Text × Text) :=
  let name := Text.trim (line.takeWhile (· != '='))
  match line.dropWhile (· != '=') with
  | [] => none
  | _ :: value =>
    if name.head? == some '#' then none
    else some (name, Text.trimEnd (withoutComment (value.dropWhile Text.isBlank)))

/-- The variables that a plain file sets. Of two lines for the same name the later one counts,
so it comes first.

Only plain files are meant. Quotation marks, `export` before a name, escapes, and references to
other variables, which such files also know, stand for themselves here. -/
def ofFile (content : Text) : Variables := ((lines content).filterMap ofLine?).reverse

/-- The variable that holds a field of the settings. -/
def nameOf (field : Text) : Text := "SCICALC_".toList ++ field.upper

/-- The fields that the variables hold. Blanks around a value count only in a prompt. -/
def fields (environment : Variables) : Fields :=
  let trimmed := fun field =>
    (environment.lookup (nameOf field)).map fun value => (field, FieldValue.text value.trim)
  let whole := fun field =>
    (environment.lookup (nameOf field)).map fun value => (field, FieldValue.text value)
  [trimmed "angle_unit".toList, trimmed "log_level".toList, whole "prompt".toList].filterMap id

end Variables

namespace Settings

/-- The settings that the environment and perhaps a file hold. What the environment sets, the
file does not. -/
def load (environment : Variables) (file : Option Text) : Except (List Issue) Settings :=
  ofFields (environment ++ (file.map Variables.ofFile).getD []).fields

/-- The settings as the fields that describe them. -/
def toFields (s : Settings) : Fields := [
  ("angle_unit".toList, .text s.angleUnit.name), ("log_level".toList, .text s.logLevel.name),
  ("prompt".toList, .text s.prompt)]

/-- The fields that the flags of the command line set. An empty log level is none. -/
def flagFields (angleUnit : Option AngleUnit) (logLevel : Option Text) : Fields :=
  (angleUnit.map fun unit => ("angle_unit".toList, .text unit.name)).toList ++
    match logLevel with
    | none | some [] => []
    | some level => [("log_level".toList, .text level)]

/-- The settings with the flags of the command line over them. If there is one, all fields are
checked once more. -/
def override (s : Settings) (angleUnit : Option AngleUnit) (logLevel : Option Text) :
    Except (List Issue) Settings :=
  match flagFields angleUnit logLevel with
  | [] => .ok s
  | flags => ofFields (flags ++ s.toFields)

end Settings

end Keypad
