/-!
# Doubles by index

The nonnegative doubles, from zero through the finite ones to infinity, are ordered like the
natural numbers their bit patterns spell. That number is the *index* of a double here, and
the sign is kept beside it. The index ties a double to the exact fraction it stands for in
one step, in both directions: `magnitude` reads the fraction off an index, `nearestIndex`
finds the index nearest to a fraction.

Nothing here computes with floating-point operations, so every answer is exact.
-/

namespace Keypad.Double

/-- How many significands share a binary exponent: `2 ^ 52`. -/
def binade : Nat := 0x10000000000000

/-- What the sign bit counts in a bit pattern: `2 ^ 63`. -/
def signBit : Nat := 0x8000000000000000

/-- The index of infinity: one more than the index of the greatest finite double. -/
def infinityIndex : Nat := 2047 * binade

/-- The index of a double's magnitude. An index past infinity belongs to a value that is not
a number. -/
def index (v : Float) : Nat := v.toBits.toNat % signBit

/-- Whether the sign bit is set. -/
def isNegative (v : Float) : Bool := signBit ≤ v.toBits.toNat

/-- The double of a sign and an index. -/
def ofIndex (negative : Bool) (i : Nat) : Float :=
  Float.ofBits (UInt64.ofNat (if negative then signBit + i else i))

/-- A nonnegative fraction. The denominator is never zero where this library builds one. -/
structure Fraction where
  num : Nat
  den : Nat

/-- `f · base ^ exponent`, by a power in the numerator or in the denominator. -/
def Fraction.scale (f : Fraction) (base : Nat) (exponent : Int) : Fraction :=
  if 0 ≤ exponent then ⟨f.num * Nat.pow base exponent.toNat, f.den⟩
  else ⟨f.num, f.den * Nat.pow base (-exponent).toNat⟩

/-- The greatest natural number that is at most the fraction. -/
def Fraction.floor (f : Fraction) : Nat := f.num / f.den

/-- The nearest natural number; from the middle between two, the even one. -/
def Fraction.roundToEven (f : Fraction) : Nat :=
  let below := f.num / f.den
  let twice := 2 * (f.num % f.den)
  if twice < f.den || (twice == f.den && below % 2 == 0) then below else below + 1

/-- The nearest natural number; from the middle between two, the greater one. -/
def Fraction.roundHalfUp (f : Fraction) : Nat :=
  let below := f.num / f.den
  if 2 * (f.num % f.den) < f.den then below else below + 1

/-- The significand of a finite index: the fraction bits, with the leading one in front
unless the index belongs to the subnormal range. -/
def significand (i : Nat) : Nat :=
  if i < binade then i else binade + i % binade

/-- The binary exponent of the last bit of the significand. -/
def exponent (i : Nat) : Int :=
  if i < binade then -1074 else (i / binade : Nat) - 1075

/-- The exact value of a finite index. -/
def magnitude (i : Nat) : Fraction :=
  Fraction.scale ⟨significand i, 1⟩ 2 (exponent i)

/-- The binary exponent of the last bit of the double nearest to `f`, before a carry: the one
that leaves a significand of 53 bits, or the least one there is. -/
def unitExponent (f : Fraction) : Int :=
  let e : Int := (Nat.log2 f.num : Int) - (Nat.log2 f.den : Int)
  let scaled := f.scale 2 (-e)
  max (-1074) (if scaled.num < scaled.den then e - 53 else e - 52)

/-- The index of the double nearest to a fraction, the even one of two that are as near. A
fraction closer to the next power of two than to the greatest finite double has infinity as
its nearest. The significand that rounds up to `2 ^ 53` needs no case of its own: it spills
into the exponent bits, which is just the carry it stands for. -/
def nearestIndex (f : Fraction) : Nat :=
  if f.num = 0 then 0
  else
    let q := unitExponent f
    min infinityIndex ((q + 1074).toNat * binade + (f.scale 2 (-q)).roundToEven)

end Keypad.Double
