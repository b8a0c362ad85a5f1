import Switchboard.Number.Rounding

/-!
Decimal texts of numbers. A number is shown by the fewest digits that read back to
it, the nearest such decimal, a tie upwards; the notation is always positional. A
decimal text is read to the nearest number.
-/

namespace Switchboard.Number

/-- A positive decimal `digits * 10 ^ exponent`. -/
structure Decimal where
  digits : Nat
  exponent : Int
  deriving DecidableEq, Repr

/-- The place of the leading digit of a positive finite number: the least `k` with
the number below `10 ^ k`. No positive number is below `10 ^ (-400)`. -/
def leadingPlace (n : Number) : Int :=
  ((Nat.toDigits 10 (n.units * tenTo 400 / unitsPerOne)).length : Int) - 400

/-- The decimal of `count` digits next to a positive finite number, if one of its
two neighbours on that grid reads back to the number. -/
def decimalOf? (n : Number) (count : Nat) : Option Decimal :=
  let place := n.leadingPlace - count
  let factor := tenTo (-place).toNat
  let unit := unitsPerOne * tenTo place.toNat
  let scaled := n.units * factor
  let below := scaled / unit
  let gapBelow := scaled % unit
  let gapAbove := unit - gapBelow
  let width := twoTo n.scale * factor
  let reads (gap : Nat) : Bool := gap < width || (gap == width && n.significand % 2 == 0)
  let narrow := n.fraction == 0 && 1 < n.exponentField
  let belowReads := reads ((if narrow then 4 else 2) * gapBelow)
  let aboveReads := reads (2 * gapAbove)
  let above : Decimal := if below + 1 = tenTo count then ⟨1, n.leadingPlace⟩ else ⟨below + 1, place⟩
  if belowReads && (!aboveReads || gapBelow < gapAbove) then some ⟨below, place⟩
  else if aboveReads then some above
  else none

/-- The first grid from `count` digits on that has a decimal reading back. -/
def shortestFrom (n : Number) : Nat → Nat → Decimal
  | 0, count => (n.decimalOf? count).getD ⟨n.significand, 0⟩
  | more + 1, count => (n.decimalOf? count).getD (shortestFrom n more (count + 1))

/-- The shortest decimal of a positive finite number; seventeen digits always do. -/
def shortest (n : Number) : Decimal :=
  shortestFrom n 16 1

/-- Positional notation. -/
def Decimal.text (d : Decimal) : List Char :=
  let digits := Nat.toDigits 10 d.digits
  if 0 ≤ d.exponent then digits ++ List.replicate d.exponent.toNat '0'
  else
    let places := (-d.exponent).toNat
    if places < digits.length then
      digits.take (digits.length - places) ++ '.' :: digits.drop (digits.length - places)
    else '0' :: '.' :: List.replicate (places - digits.length) '0' ++ digits

/-- The text of a number. -/
def text (n : Number) : List Char :=
  if n.isNaN then "NaN".toList
  else
    let magnitude :=
      if n.isInfinite then "Infinity".toList
      else if n.isZero then ['0']
      else n.shortest.text
    if n.isNegative then '-' :: magnitude else magnitude

/-- The text of a number. -/
def display (n : Number) : String :=
  String.ofList n.text

/-- The value of a run of decimal digits after the digits of `start`. -/
def digitsValue (start : Nat) (digits : List Char) : Nat :=
  Nat.ofDigitChars 10 digits start

/-- An exponent: an optional sign and at least one digit, and nothing after. -/
def readExponent? (text : List Char) : Option Int :=
  let (negative, digits) := match text with
    | '+' :: rest => (false, rest)
    | '-' :: rest => (true, rest)
    | _ => (false, text)
  if digits.isEmpty || !digits.all Char.isDigit then none
  else
    let magnitude : Int := digitsValue 0 digits
    some (if negative then -magnitude else magnitude)

/-- An unsigned decimal: digits around an optional point, at least one of them,
and an optional exponent. -/
def readDecimal? (negative : Bool) (text : List Char) : Option Number :=
  let whole := text.takeWhile Char.isDigit
  let afterWhole := text.dropWhile Char.isDigit
  let (fraction, rest) := match afterWhole with
    | '.' :: tail => (tail.takeWhile Char.isDigit, tail.dropWhile Char.isDigit)
    | _ => ([], afterWhole)
  if whole.isEmpty && fraction.isEmpty then none
  else
    let digits := digitsValue (digitsValue 0 whole) fraction
    match rest with
    | [] => some (ofDecimal negative digits (-(fraction.length : Int)))
    | c :: tail =>
        if c = 'e' || c = 'E' then
          (readExponent? tail).map fun exponent =>
            ofDecimal negative digits (exponent - fraction.length)
        else none

/-- A number text: an optional sign before a decimal, an infinity or NaN, the last
two in any case of letters. -/
def read? (text : String) : Option Number :=
  let chars := text.toList
  let (negative, rest) := match chars with
    | '+' :: rest => (false, rest)
    | '-' :: rest => (true, rest)
    | _ => (false, chars)
  let word := rest.map Char.toLower
  if word = "inf".toList || word = "infinity".toList then some (infinity negative)
  else if word = "nan".toList then some nan
  else readDecimal? negative rest

end Switchboard.Number
