import Keypad.Number.Whole
import Keypad.Number.Written

/-!
# Records from named fields

Settings and history entries can be made from fields that come from outside, with values of
any kind. Each field is checked on its own, and a record is refused with the issues of all
its fields, in the order in which the record declares them. Fields that the record does not
know are ignored.
-/

namespace Keypad

/-- A value from outside. -/
inductive FieldValue where
  | null
  | bool (b : Bool)
  | integer (n : Int)
  /-- A number written with a fraction or an exponent. -/
  | number (v : Float)
  | text (t : Text)
  /-- A list or a record. -/
  | compound

/-- Named values. -/
abbrev Fields := List (Text × FieldValue)

/-- What can be wrong with a field. -/
inductive Complaint where
  | missing
  | notText
  | notInteger
  | fractional
  | notFinite
  | unreadableInteger
  | tooLongInteger
  | negative
  | emptyText
  | notAngleUnit
  /-- Refused by a rule of the record. -/
  | refused (reason : Text)
  deriving DecidableEq

namespace Complaint

/-- The name of a complaint. -/
def kind : Complaint → Text
  | .missing => "missing".toList
  | .notText => "string_type".toList
  | .notInteger => "int_type".toList
  | .fractional => "int_from_float".toList
  | .notFinite => "finite_number".toList
  | .unreadableInteger => "int_parsing".toList
  | .tooLongInteger => "int_parsing_size".toList
  | .negative => "greater_than_equal".toList
  | .emptyText => "string_too_short".toList
  | .notAngleUnit => "enum".toList
  | .refused _ => "value_error".toList

/-- What a complaint says. -/
def message : Complaint → Text
  | .missing => "Field required".toList
  | .notText => "Input should be a valid string".toList
  | .notInteger => "Input should be a valid integer".toList
  | .fractional => "Input should be a valid integer, got a number with a fractional part".toList
  | .notFinite => "Input should be a finite number".toList
  | .unreadableInteger =>
    "Input should be a valid integer, unable to parse string as an integer".toList
  | .tooLongInteger =>
    "Unable to parse input string as an integer, exceeded maximum size".toList
  | .negative => "Input should be greater than or equal to 0".toList
  | .emptyText => "String should have at least 1 character".toList
  | .notAngleUnit => "Input should be 'deg' or 'rad'".toList
  | .refused reason => "Value error, ".toList ++ reason

end Complaint

/-- A complaint about a field. -/
structure Issue where
  field : Text
  complaint : Complaint
  deriving DecidableEq

/-- The issues of one checked field. -/
def issuesOf {α : Type} (field : Text) : Except Complaint α → List Issue
  | .ok _ => []
  | .error complaint => [⟨field, complaint⟩]

namespace FieldValue

/-- The value as a text. -/
def toText : FieldValue → Except Complaint Text
  | .text t => .ok t
  | _ => .error .notText

/-- The value as a whole number. Truth values count as zero and one, and a number or a text
counts if a whole number is what it stands for. -/
def toInteger : FieldValue → Except Complaint Int
  | .integer n => .ok n
  | .bool b => .ok (if b then 1 else 0)
  | .number v =>
    let f := Double.magnitude (Double.index v)
    if !v.isFinite then .error .notFinite
    else if f.num % f.den = 0 then
      let n : Int := f.num / f.den
      .ok (if Double.isNegative v then -n else n)
    else .error .fractional
  | .text t =>
    match Whole.read? t with
    | some n =>
      if (Text.ofInt n).length ≤ Whole.maxLength then .ok n else .error .tooLongInteger
    | none => .error .unreadableInteger
  | .null | .compound => .error .notInteger

end FieldValue

namespace Fields

/-- Check a field that must be there. -/
def required {α : Type} (fields : Fields) (name : Text)
    (check : FieldValue → Except Complaint α) : Except Complaint α :=
  match fields.lookup name with
  | some value => check value
  | none => .error .missing

/-- Check a field that may be left out. -/
def optional {α : Type} (fields : Fields) (name : Text) (default : α)
    (check : FieldValue → Except Complaint α) : Except Complaint α :=
  match fields.lookup name with
  | some value => check value
  | none => .ok default

end Fields

end Keypad
