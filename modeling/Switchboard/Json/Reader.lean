import Switchboard.Json.Number
import Switchboard.Text.Affix
import Switchboard.Value.Basic

/-!
Strict JSON texts, read as values. A repeated key of an object keeps its first
place and its last entry; containers nest at most 127 deep; half of a surrogate
pair is refused. A stream is a run of values with blanks between them, where a
number or a keyword must be followed by a blank, a bracket, a quote, a comma, a
colon or the end. The caller says how numerals go to numbers.
-/

namespace Switchboard.Json

/-- White space between the parts of a JSON text. -/
def isSpace (c : Char) : Bool :=
  c == ' ' || c == '\n' || c == '\t' || c == '\r'

def skipSpace (text : List Char) : List Char :=
  text.dropWhile isSpace

/-- How many containers may stand inside each other. -/
def depthLimit : Nat :=
  127

/-- A hexadecimal digit, in either case. -/
def hexDigit? (c : Char) : Option Nat :=
  if c.isDigit then some (c.toNat - '0'.toNat)
  else if 'a' ≤ c && c ≤ 'f' then some (c.toNat - 'a'.toNat + 10)
  else if 'A' ≤ c && c ≤ 'F' then some (c.toNat - 'A'.toNat + 10)
  else none

/-- Four hexadecimal digits. -/
def readUnit? : List Char → Option (Nat × List Char)
  | a :: b :: c :: d :: rest => do
      let a ← hexDigit? a
      let b ← hexDigit? b
      let c ← hexDigit? c
      let d ← hexDigit? d
      return (((a * 16 + b) * 16 + c) * 16 + d, rest)
  | _ => none

/-- A character escaped by its code unit, or by the two units of a surrogate pair. -/
def readEscapedUnit? (text : List Char) : Option (Char × List Char) := do
  let (unit, rest) ← readUnit? text
  if 0xDC00 ≤ unit && unit ≤ 0xDFFF then none
  else if 0xD800 ≤ unit && unit ≤ 0xDBFF then
    match rest with
    | '\\' :: 'u' :: rest => do
        let (low, rest) ← readUnit? rest
        if 0xDC00 ≤ low && low ≤ 0xDFFF then
          return (Char.ofNat (0x10000 + (unit - 0xD800) * 0x400 + (low - 0xDC00)), rest)
        else none
    | _ => none
  else return (Char.ofNat unit, rest)

/-- The character that a one-letter escape stands for. -/
def shortEscape? (c : Char) : Option Char :=
  match c with
  | '"' => some '"'
  | '\\' => some '\\'
  | '/' => some '/'
  | 'b' => some '\x08'
  | 'f' => some '\x0c'
  | 'n' => some '\n'
  | 'r' => some '\r'
  | 't' => some '\t'
  | _ => none

/-- The characters up to the closing quote, and what follows it. The first argument
bounds the characters read. -/
def readChars? : Nat → List Char → Option (List Char × List Char)
  | 0, _ => none
  | _ + 1, [] => none
  | _ + 1, '"' :: rest => some ([], rest)
  | bound + 1, '\\' :: 'u' :: rest => do
      let (c, rest) ← readEscapedUnit? rest
      let (chars, rest) ← readChars? bound rest
      return (c :: chars, rest)
  | bound + 1, '\\' :: escape :: rest => do
      let c ← shortEscape? escape
      let (chars, rest) ← readChars? bound rest
      return (c :: chars, rest)
  | bound + 1, c :: rest => do
      if c.toNat < 0x20 || c = '\\' then none
      let (chars, rest) ← readChars? bound rest
      return (c :: chars, rest)

/-- A string after its opening quote. -/
def readString? (text : List Char) : Option (String × List Char) := do
  let (chars, rest) ← readChars? (text.length + 1) text
  return (String.ofList chars, rest)

/-- A reader of one value at the start of a text. -/
abbrev ValueReader : Type := List Char → Option (Value × List Char)

/-- The items of an array up to its closing bracket, at least one. The first
argument after the reader bounds the items. -/
def readItems? (read : ValueReader) : Nat → List Char → Option (List Value × List Char)
  | 0, _ => none
  | bound + 1, text => do
      let (item, rest) ← read text
      match skipSpace rest with
      | ']' :: rest => return ([item], rest)
      | ',' :: rest => do
          let (items, rest) ← readItems? read bound rest
          return (item :: items, rest)
      | _ => none

/-- One field: a key, a colon and a value. -/
def readField? (read : ValueReader) (text : List Char) : Option ((String × Value) × List Char) :=
  match skipSpace text with
  | '"' :: rest => do
      let (key, rest) ← readString? rest
      match skipSpace rest with
      | ':' :: rest => do
          let (entry, rest) ← read rest
          return ((key, entry), rest)
      | _ => none
  | _ => none

/-- The fields of an object up to its closing brace, at least one. -/
def readFields? (read : ValueReader) : Nat → List Char → Option (List (String × Value) × List Char)
  | 0, _ => none
  | bound + 1, text => do
      let (field, rest) ← readField? read text
      match skipSpace rest with
      | '\x7d' :: rest => return ([field], rest)
      | ',' :: rest => do
          let (fields, rest) ← readFields? read bound rest
          return (field :: fields, rest)
      | _ => none

/-- A keyword or a number. -/
def readScalar? (conversion : Conversion) (text : List Char) : Option (Value × List Char) :=
  match text with
  | 'n' :: _ => (Text.afterPrefix? "null".toList text).map fun rest => (.null, rest)
  | 't' :: _ => (Text.afterPrefix? "true".toList text).map fun rest => (.boolean true, rest)
  | 'f' :: _ => (Text.afterPrefix? "false".toList text).map fun rest => (.boolean false, rest)
  | _ => (readNumber? conversion text).map fun (n, rest) => (.number n, rest)

/-- One value after blanks, with the given number of container levels left. -/
def readValue? (conversion : Conversion) : Nat → ValueReader
  | levels, text =>
      match skipSpace text with
      | '"' :: rest => (readString? rest).map fun (s, rest) => (.string s, rest)
      | '[' :: rest =>
          match levels with
          | 0 => none
          | levels + 1 =>
              match skipSpace rest with
              | ']' :: rest => some (.array [], rest)
              | _ => (readItems? (readValue? conversion levels) (rest.length + 1) rest).map
                  fun (items, rest) => (.array items, rest)
      | '\x7b' :: rest =>
          match levels with
          | 0 => none
          | levels + 1 =>
              match skipSpace rest with
              | '\x7d' :: rest => some (.object [], rest)
              | _ => (readFields? (readValue? conversion levels) (rest.length + 1) rest).map
                  fun (fields, rest) => (.ofFields fields, rest)
      | text => readScalar? conversion text

/-- The value that a whole text holds. -/
def read? (conversion : Conversion) (text : String) : Option Value :=
  match readValue? conversion depthLimit text.toList with
  | some (v, rest) => if (skipSpace rest).isEmpty then some v else none
  | none => none

/-- Whether a number or keyword may end before this text. -/
def endsScalar (text : List Char) : Bool :=
  text.head?.all fun c => isSpace c || "\"[]\x7b\x7d,:".toList.contains c

/-- The values of a stream. The first argument bounds their number. -/
def readStreamFrom? (conversion : Conversion) : Nat → List Char → Option (List Value)
  | 0, _ => none
  | bound + 1, text =>
      match skipSpace text with
      | [] => some []
      | start :: tail => do
          let (v, rest) ← readValue? conversion depthLimit (start :: tail)
          if (start = '[' || start = '\x7b' || start = '"') || endsScalar rest then
            let values ← readStreamFrom? conversion bound rest
            return v :: values
          else none

/-- The values of a whole stream; none if any part of it is malformed. -/
def readStream? (conversion : Conversion) (text : String) : Option (List Value) :=
  readStreamFrom? conversion (text.length + 1) text.toList

end Switchboard.Json
