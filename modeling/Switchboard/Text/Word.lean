import Switchboard.Text.WordRanges

/-!
Two notions of a word. A plain word is made of ASCII letters, digits and the
underscore; spacing and the shape of a name are decided by it. A word in the
wide sense also holds the word characters of other scripts; the keywords of a
type expression are found between boundaries of wide words.
-/

namespace Switchboard.Text

/-- Whether a code point lies in one of the ranges. -/
def inRanges (ranges : List (Nat × Nat)) (code : Nat) : Bool :=
  ranges.any fun (first, last) => first ≤ code && code ≤ last

/-- ASCII letters, digits and the underscore. -/
def isPlain (c : Char) : Bool :=
  c.isAlphanum || c == '_'

/-- Characters of a word in any script. -/
def isWord (c : Char) : Bool :=
  if c.toNat < 0x80 then isPlain c else inRanges wordRanges c.toNat

/-- A name made of one plain word. -/
def isPlainWord (text : String) : Bool :=
  !text.toList.isEmpty && text.toList.all isPlain

/-- Whether a word cannot go on at this neighbour: there is none, or it is no
word character. -/
def isBoundary (neighbour : Option Char) : Bool :=
  neighbour.all fun c => !isWord c

end Switchboard.Text
