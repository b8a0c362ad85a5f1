import Switchboard.Text.Blank
import Switchboard.Text.Word

/-!
The normal spelling of a type expression. Symbolic operators are spelled out as
spaced keywords; then every run of blanks is weighed by its two neighbours alone:
it goes away at the edges and where exactly one neighbour is a plain word
character, and is one space otherwise. Two spellings with the same normal form are
the same expression.
-/

namespace Switchboard.Spelling

open Text

/-- Operators spelled out: `||`, `&&`, `!` and `[]` as keywords between spaces. -/
def spellOut : List Char → List Char
  | '|' :: '|' :: rest => ' ' :: 'o' :: 'r' :: ' ' :: spellOut rest
  | '&' :: '&' :: rest => ' ' :: 'a' :: 'n' :: 'd' :: ' ' :: spellOut rest
  | '!' :: rest => ' ' :: 'n' :: 'o' :: 't' :: ' ' :: spellOut rest
  | '[' :: ']' :: rest => ' ' :: 'a' :: 'r' :: 'r' :: 'a' :: 'y' :: ' ' :: spellOut rest
  | c :: rest => c :: spellOut rest
  | [] => []

/-- What follows the character `last` with its blanks weighed; `gap` says whether
blanks stood right after `last`. -/
def weighAfter (last : Char) (gap : Bool) : List Char → List Char
  | [] => []
  | c :: rest =>
      if isBlank c then weighAfter last true rest
      else if gap && isPlain last == isPlain c then ' ' :: c :: weighAfter c false rest
      else c :: weighAfter c false rest

/-- A text with each run of blanks weighed by its neighbours. -/
def weigh (text : List Char) : List Char :=
  match trimStart text with
  | [] => []
  | c :: rest => c :: weighAfter c false rest

/-- The normal spelling, as characters. -/
def normalChars (source : List Char) : List Char :=
  weigh (spellOut source)

/-- The normal spelling of a source text. -/
def normalize (source : String) : String :=
  String.ofList (normalChars source.toList)

end Switchboard.Spelling
