import Keypad.Number.Decimal

/-!
# The shortest decimal that reads back

Among the decimals whose nearest double is a given one, the shortest has the fewest
significant digits, and of those with that many digits it is the nearest to the double. The
candidates with a fixed number of digits form a grid, and only the two grid points around
the exact value have to be tried: if any point of the grid reads back, one of these does.
-/

namespace Keypad.Decimal

/-- How many decimal digits a positive natural number has. -/
def digitCount (n : Nat) : Nat := (Nat.toDigits 10 n).length

/-- The exponent of the leading digit of a positive fraction: the greatest `k` with
`10 ^ k ≤ f`. -/
def leadingExponent (f : Double.Fraction) : Int :=
  if f.den ≤ f.num then (digitCount (f.num / f.den) : Int) - 1
  else -(digitCount ((f.den + f.num - 1) / f.num - 1) : Int)

/-- Of the two points around the fraction on the grid of spacing `10 ^ unit`, the one that
reads back as index `i`; if both do, the nearer, and from the middle the even one. -/
def gridPoint? (i : Nat) (f : Double.Fraction) (unit : Int) : Option Decimal :=
  let scaled := f.scale 10 (-unit)
  let below : Decimal := ⟨scaled.floor, unit⟩
  let above : Decimal := ⟨scaled.floor + 1, unit⟩
  if below.nearestIndex = i then
    if above.nearestIndex = i then some ⟨scaled.roundToEven, unit⟩ else some below
  else if above.nearestIndex = i then some above
  else none

/-- Search the grids of `digits`, `digits + 1`, … significant digits, `fuel` of them. If no
grid has an answer the exact value stands in, which has finitely many digits and reads back
by being the double itself. -/
def shortestFrom (i : Nat) (f : Double.Fraction) (lead : Int) : Nat → Nat → Decimal
  | 0, _ =>
    let places := -(Double.exponent i)
    if 0 ≤ places then ⟨f.num * Nat.pow 5 places.toNat, -places⟩ else ⟨f.num, 0⟩
  | fuel + 1, digits =>
    match gridPoint? i f (lead - digits + 1) with
    | some d => d
    | none => shortestFrom i f lead fuel (digits + 1)

/-- The shortest decimal whose nearest double has index `i`, for a finite positive index.
Seventeen digits are always enough. -/
def shortest (i : Nat) : Decimal :=
  let f := Double.magnitude i
  shortestFrom i f (leadingExponent f) 17 1

end Keypad.Decimal
