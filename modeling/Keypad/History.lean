import Keypad.Record

/-!
# History entries

A committed calculation is kept with its expression, its result and the time of the commit.
Neither text is ever empty and no time lies before the beginning of time.
-/

namespace Keypad

/-- A committed calculation. -/
structure HistoryEntry where
  expression : Text
  result : Text
  /-- When it was committed, in milliseconds. -/
  timestamp : Nat
  deriving DecidableEq

namespace HistoryEntry

/-- Check a text of an entry. -/
def checkText (t : Text) : Except Complaint Text :=
  if t.isEmpty then
    .error (.refused "History entries need an expression and a result".toList)
  else .ok t

/-- Check the time of an entry. -/
def checkTimestamp (n : Int) : Except Complaint Nat :=
  if n < 0 then .error .negative else .ok n.toNat

/-- The entry of checked parts, or the issues of all of them. -/
def ofChecked (expression result : Except Complaint Text) (timestamp : Except Complaint Nat) :
    Except (List Issue) HistoryEntry :=
  match expression, result, timestamp with
  | .ok expression, .ok result, .ok timestamp => .ok ⟨expression, result, timestamp⟩
  | _, _, _ =>
    .error (issuesOf "expression".toList expression ++ issuesOf "result".toList result ++
      issuesOf "timestamp".toList timestamp)

/-- The entry of a commit. -/
def make (expression result : Text) (timestamp : Int) : Except (List Issue) HistoryEntry :=
  ofChecked (checkText expression) (checkText result) (checkTimestamp timestamp)

/-- The entry that fields from outside describe. -/
def ofFields (fields : Fields) : Except (List Issue) HistoryEntry :=
  ofChecked
    (fields.required "expression".toList fun value => value.toText >>= checkText)
    (fields.required "result".toList fun value => value.toText >>= checkText)
    (fields.required "timestamp".toList fun value => value.toInteger >>= checkTimestamp)

end HistoryEntry

end Keypad
