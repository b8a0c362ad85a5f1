import Switchboard.Text.EscapedRanges
import Switchboard.Text.Word

/-!
Quoted texts, the form in which strings and type texts are shown: between double
quotes, with a backslash before a quote or a backslash, four short escapes, and
the code point in braces for every character that would not show as itself.
-/

namespace Switchboard.Text

/-- Whether a character is written by its code point. -/
def isEscaped (c : Char) : Bool :=
  if c.toNat < 0x80 then c.toNat < 0x20 || c.toNat == 0x7F
  else inRanges escapedRanges c.toNat

/-- One character inside quotes. -/
def quotedChar (c : Char) : List Char :=
  if c = '"' then ['\\', '"']
  else if c = '\\' then ['\\', '\\']
  else if c = '\t' then ['\\', 't']
  else if c = '\r' then ['\\', 'r']
  else if c = '\n' then ['\\', 'n']
  else if c = '\x00' then ['\\', '0']
  else if isEscaped c then
    '\\' :: 'u' :: '\x7b' :: Nat.toDigits 16 c.toNat ++ ['\x7d']
  else [c]

/-- A text between double quotes. -/
def quoted (text : String) : String :=
  String.ofList ('"' :: text.toList.flatMap quotedChar ++ ['"'])

end Switchboard.Text
