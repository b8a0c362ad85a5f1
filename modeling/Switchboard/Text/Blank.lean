/-!
Blank characters and trimming. A blank is a character with the Unicode property
`White_Space`, a set of twenty-five characters that the standard keeps fixed.
Texts are worked on as lists of characters, so that each rule is a plain
recursion; `String` appears where a text is stored or shown.
-/

namespace Switchboard.Text

/-- Whether a character is white space. -/
def isBlank (c : Char) : Bool :=
  let n := c.toNat
  n == 0x20 || (0x9 ≤ n && n ≤ 0xD) || n == 0x85 || n == 0xA0 || n == 0x1680 ||
    (0x2000 ≤ n && n ≤ 0x200A) || n == 0x2028 || n == 0x2029 || n == 0x202F ||
    n == 0x205F || n == 0x3000

/-- A text without the blanks at its start. -/
def trimStart (text : List Char) : List Char :=
  text.dropWhile isBlank

/-- A text without the blanks at its end. -/
def trimEnd (text : List Char) : List Char :=
  (text.reverse.dropWhile isBlank).reverse

/-- A text without the blanks at its edges. -/
def trim (text : List Char) : List Char :=
  trimEnd (trimStart text)

/-- Whether nothing but blanks is in a text. -/
def isBlankText (text : String) : Bool :=
  text.toList.all isBlank

/-- Whether a text stands on one line: no line feed is in it. -/
def isLine (text : List Char) : Bool :=
  !text.contains '\n'

theorem isLine_iff {text : List Char} : isLine text = true ↔ '\n' ∉ text := by
  simp [isLine]

theorem trimStart_sublist (text : List Char) : (trimStart text).Sublist text :=
  List.dropWhile_sublist isBlank

theorem trimEnd_sublist (text : List Char) : (trimEnd text).Sublist text := by
  have h := (List.dropWhile_sublist isBlank (l := text.reverse)).reverse
  rwa [List.reverse_reverse] at h

theorem trim_sublist (text : List Char) : (trim text).Sublist text :=
  (trimEnd_sublist _).trans (trimStart_sublist text)

theorem length_trim_le (text : List Char) : (trim text).length ≤ text.length :=
  (trim_sublist text).length_le

end Switchboard.Text
