import Keypad.Text.Basic

/-!
# Angle units

The trigonometric functions read their argument in the unit in force.
-/

namespace Keypad

/-- The unit of an angle. -/
inductive AngleUnit where
  | degrees
  | radians
  deriving DecidableEq

namespace AngleUnit

/-- The name of a unit in settings, on the command line and in front of the display. -/
def name : AngleUnit → Text
  | .degrees => "deg".toList
  | .radians => "rad".toList

/-- The unit with a given name. -/
def ofName? (text : Text) : Option AngleUnit :=
  [degrees, radians].find? (·.name == text)

/-- What an angle in this unit is multiplied by to be in radians. -/
def factor : AngleUnit → Float
  | .degrees => 3.141592653589793 / 180
  | .radians => 1

/-- The other unit. -/
def toggled : AngleUnit → AngleUnit
  | .degrees => .radians
  | .radians => .degrees

end AngleUnit

end Keypad
