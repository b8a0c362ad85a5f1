import Switchboard.Number.Decimal
import Switchboard.Text.Blank

/-!
The number at the start of a text. Blanks and one sign may come before it; it is an
infinity or the longest decimal that the text starts with, and whatever follows is
ignored.
-/

namespace Switchboard.Number

/-- The sign at the start of a text, if there is one. -/
def signPrefix : List Char → List Char
  | '+' :: _ => ['+']
  | '-' :: _ => ['-']
  | _ => []

/-- The exponent at the start of a text: a mark, an optional sign and at least one
digit; nothing if it is not complete. -/
def exponentPrefix : List Char → List Char
  | [] => []
  | mark :: tail =>
      if mark = 'e' || mark = 'E' then
        let sign := signPrefix tail
        let digits := (tail.drop sign.length).takeWhile Char.isDigit
        if digits.isEmpty then [] else mark :: sign ++ digits
      else []

/-- The point and the digits behind it at the start of a text. -/
def fractionPrefix : List Char → List Char
  | '.' :: tail => '.' :: tail.takeWhile Char.isDigit
  | _ => []

/-- The longest unsigned decimal at the start of a text; there is none without a
digit before or behind the point. -/
def decimalPrefix? (text : List Char) : Option (List Char) :=
  let whole := text.takeWhile Char.isDigit
  let afterWhole := text.dropWhile Char.isDigit
  let fraction := fractionPrefix afterWhole
  if whole.isEmpty && fraction.length ≤ 1 then none
  else some (whole ++ fraction ++ exponentPrefix (afterWhole.drop fraction.length))

/-- The number at the start of a text. -/
def leading? (text : List Char) : Option Number :=
  let signed := Text.trimStart text
  let sign := signPrefix signed
  let unsigned := signed.drop sign.length
  let negative := sign == ['-']
  if "Infinity".toList.isPrefixOf unsigned then some (infinity negative)
  else (decimalPrefix? unsigned).bind (readDecimal? negative)

end Switchboard.Number
