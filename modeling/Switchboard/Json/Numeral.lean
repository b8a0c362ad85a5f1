import Switchboard.Number.Decimal

/-!
Numerals of JSON texts: an optional minus, a whole part without leading zeros, an
optional fraction and an optional exponent. A numeral keeps its digits; which
number it goes to is decided apart from its grammar.
-/

namespace Switchboard.Json

/-- A numeral: its sign, the digits on both sides of the point, and the exponent,
zero if none is written. -/
structure Numeral where
  negative : Bool
  whole : List Char
  fraction : List Char
  exponent : Int
  deriving DecidableEq, Repr

/-- At least one digit, and a leading zero only if it is the only digit. -/
def isWholePart (digits : List Char) : Bool :=
  match digits with
  | [] => false
  | first :: more => first != '0' || more.isEmpty

/-- The digits behind the point, none if there is no point, and the rest of the
text. A point without a digit is refused. -/
def readFraction? (text : List Char) : Option (List Char × List Char) :=
  match text with
  | '.' :: tail =>
      let digits := tail.takeWhile Char.isDigit
      if digits.isEmpty then none else some (digits, tail.dropWhile Char.isDigit)
  | _ => some ([], text)

/-- The exponent, zero if there is no mark, and the rest of the text. A mark without
a digit is refused. -/
def readExponent? (text : List Char) : Option (Int × List Char) :=
  match text with
  | c :: tail =>
      if c = 'e' || c = 'E' then
        let (negative, tail) := match tail with
          | '+' :: rest => (false, rest)
          | '-' :: rest => (true, rest)
          | _ => (false, tail)
        let digits := tail.takeWhile Char.isDigit
        let magnitude : Int := Number.digitsValue 0 digits
        if digits.isEmpty then none
        else some (if negative then -magnitude else magnitude, tail.dropWhile Char.isDigit)
      else some (0, text)
  | [] => some (0, text)

/-- A numeral at the start of a text, with what follows it. -/
def readNumeral? (text : List Char) : Option (Numeral × List Char) := do
  let (negative, unsigned) := match text with
    | '-' :: rest => (true, rest)
    | _ => (false, text)
  let whole := unsigned.takeWhile Char.isDigit
  if !isWholePart whole then none
  let (fraction, afterFraction) ← readFraction? (unsigned.dropWhile Char.isDigit)
  let (exponent, rest) ← readExponent? afterFraction
  return (⟨negative, whole, fraction, exponent⟩, rest)

end Switchboard.Json
