import Switchboard.Number.Basic

/-!
Rounding. A ratio of naturals goes to the nearest number, a tie to the one whose
significand is even, and a ratio beyond the largest finite number to infinity. In
units of `2 ^ (-1074)` the scale is a natural number, and the bits of the rounded
magnitude are `scale * 2 ^ 52 + significand`: a significand that rounds up to
`2 ^ 53` carries into the next scale by itself.
-/

namespace Switchboard.Number

/-- The quotient rounded to the nearest natural, a tie to the even one. -/
def roundedQuotient (num den : Nat) : Nat :=
  let quotient := num / den
  let twice := 2 * (num % den)
  if den < twice || (twice == den && quotient % 2 == 1) then quotient + 1 else quotient

/-- The magnitude bits of the number nearest to `num / den`. -/
def nearestMagnitude (num den : Nat) : Nat :=
  let units := num * unitsPerOne
  let scale := Nat.log2 (units / den) - 52
  min (scale * twoTo 52 + roundedQuotient units (den * twoTo scale)) infiniteMagnitude

/-- The number nearest to a signed ratio. -/
def ofRatio (negative : Bool) (num den : Nat) : Number :=
  ofMagnitude negative (nearestMagnitude num den)

def ofNat (n : Nat) : Number :=
  ofRatio false n 1

def ofInt (n : Int) : Number :=
  ofRatio (n < 0) n.natAbs 1

/-- The number nearest to `digits * 10 ^ exponent`. A decimal whose size is far
outside the range of numbers is settled without computing the power. -/
def ofDecimal (negative : Bool) (digits : Nat) (exponent : Int) : Number :=
  let size := ((Nat.toDigits 10 digits).length : Int) + exponent
  if digits = 0 || size < -330 then ofMagnitude negative 0
  else if 310 < size then infinity negative
  else if 0 ≤ exponent then ofRatio negative (digits * tenTo exponent.toNat) 1
  else ofRatio negative digits (tenTo (-exponent).toNat)

/-- The product of two finite magnitudes, rounded once. -/
def mulMagnitude (a b : Number) : Number :=
  ofRatio false (a.units * b.units) (unitsPerOne * unitsPerOne)

/-- The quotient of two finite magnitudes, rounded once. -/
def divMagnitude (a b : Number) : Number :=
  ofRatio false a.units b.units

/-- The number of a given sign with the magnitude of another. -/
def withSign (negative : Bool) (n : Number) : Number :=
  ofMagnitude negative (n.bits.toNat % twoTo 63)

end Switchboard.Number
