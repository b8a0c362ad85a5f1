import Switchboard.Json.Numeral

/-!
From numerals to numbers, in two ways. The exact way goes to the number nearest to
the decimal, however many digits it has. The stepwise way keeps the leading digits
as long as they fit 64 bits, rounds them to a number, and scales that by a rounded
power of ten with one more rounding, in steps of `10 ^ 308` where the power is
smaller than any number; it may miss the nearest number by a few places at the end.
Both refuse a decimal beyond the finite range, and a negative zero keeps its sign.
-/

namespace Switchboard.Json

/-- Which number a numeral goes to: the nearest one, or the one that rounding step
by step arrives at. -/
inductive Conversion where
  | exact
  | stepwise
  deriving DecidableEq, Repr

/-- One past the largest kept run of digits. -/
def significandLimit : Nat :=
  twoTo 64

/-- Digits read so far: the kept ones, how far they are from their place, and
whether a digit has been left out. -/
structure Digits where
  kept : Nat
  shift : Int
  full : Bool

namespace Digits

/-- A further digit before the point; once one is left out all that follow are. -/
def pushWhole (d : Digits) (c : Char) : Digits :=
  let next := Number.digitsValue d.kept [c]
  if d.full || significandLimit ≤ next then { d with shift := d.shift + 1, full := true }
  else { d with kept := next }

/-- A further digit behind the point. -/
def pushFraction (d : Digits) (c : Char) : Digits :=
  let next := Number.digitsValue d.kept [c]
  if d.full || significandLimit ≤ next then { d with full := true }
  else { d with kept := next, shift := d.shift - 1 }

end Digits

/-- The largest power of ten that is taken in one step. -/
def powerLimit : Nat :=
  308

/-- A magnitude divided by `10 ^ exponent`, in steps of at most `powerLimit`. A
finite number is zero after three steps. -/
def scaleDown (n : Number) (exponent : Nat) : Nat → Number
  | 0 => Number.zero
  | steps + 1 =>
      if exponent ≤ powerLimit then n.divMagnitude (Number.ofNat (tenTo exponent))
      else if n.isZero then n
      else
        let smaller := n.divMagnitude (Number.ofNat (tenTo powerLimit))
        scaleDown smaller (exponent - powerLimit) steps

/-- A magnitude times a power of ten; none if it leaves the finite range. -/
def scaled? (n : Number) (exponent : Int) : Option Number :=
  if exponent < 0 then some (scaleDown n (-exponent).toNat 4)
  else if powerLimit < exponent.toNat then if n.isZero then some n else none
  else
    let product := n.mulMagnitude (Number.ofNat (tenTo exponent.toNat))
    if product.isInfinite then none else some product

/-- Exponents whose digits do not fit a signed word of 32 bits. -/
def exponentLimit : Nat :=
  twoTo 31

/-- The magnitude of kept digits with an exponent. -/
def magnitude? (d : Digits) (exponent : Int) : Option Number :=
  if exponentLimit ≤ exponent.natAbs then
    if d.kept = 0 || exponent < 0 then some Number.zero else none
  else scaled? (Number.ofNat d.kept) (d.shift + exponent)

namespace Numeral

/-- The number nearest to the decimal of a numeral. -/
def nearest (n : Numeral) : Number :=
  let digits := Number.digitsValue (Number.digitsValue 0 n.whole) n.fraction
  Number.ofDecimal n.negative digits (n.exponent - n.fraction.length)

/-- The number of a numeral, rounded step by step. -/
def rounded? (n : Numeral) : Option Number :=
  let whole := n.whole.foldl Digits.pushWhole ⟨0, 0, false⟩
  let digits := n.fraction.foldl Digits.pushFraction { whole with full := false }
  (magnitude? digits n.exponent).map (Number.withSign n.negative)

/-- The number of a numeral, if it is finite. -/
def number? (n : Numeral) : Conversion → Option Number
  | .exact => if n.nearest.isInfinite then none else some n.nearest
  | .stepwise => n.rounded?

end Numeral

/-- A number at the start of a text, with what follows it. -/
def readNumber? (conversion : Conversion) (text : List Char) : Option (Number × List Char) := do
  let (numeral, rest) ← readNumeral? text
  let number ← numeral.number? conversion
  return (number, rest)

end Switchboard.Json
