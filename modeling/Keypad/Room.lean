/-!
# Room for nesting

Reading and evaluating an expression both nest as deep as the expression does, and a
calculator stops at some depth. *Room* is how many levels are left before it does. Without a
bound nothing is ever too deep, and that is the setting in which the laws of reading and
evaluating hold without exception.
-/

namespace Keypad

/-- How many more levels may be nested; none sets no bound. -/
abbrev Room := Option Nat

namespace Room

/-- Whether there is room for a number of levels. -/
def admits : Room → Nat → Bool
  | none, _ => true
  | some levels, depth => depth ≤ levels

end Room

/-- A fault of a computation that may also run out of room. -/
inductive Bounded (ε : Type) where
  | fault (error : ε)
  /-- More levels than there was room for. -/
  | tooDeep

/-- Go down one level, if there is room. -/
def Room.enter {ε α : Type} (room : Room) (body : Room → Except (Bounded ε) α) :
    Except (Bounded ε) α :=
  match room with
  | none => body none
  | some 0 => .error .tooDeep
  | some (levels + 1) => body (some levels)

/-- How much room reading and evaluating have. -/
structure Limits where
  /-- Levels for reading: two for each parenthesis that groups and each sign, one for each
  argument and each operator that waits for its right operand. -/
  reading : Room
  /-- Levels for evaluating: one for each node on the way down. -/
  evaluating : Room

namespace Limits

/-- The room a calculator has. -/
def standard : Limits := ⟨some 990, some 990⟩

/-- Room for everything. -/
def unbounded : Limits := ⟨none, none⟩

end Limits

end Keypad
