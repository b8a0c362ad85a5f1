import Switchboard.Expr.Groups
import Switchboard.Expr.Spelling
import Switchboard.Text.Affix

/-!
Reading a type expression from its normal spelling. A flat text is a name if it is
a defined name as a whole, and a group if it is a placeholder; else it splits at the
first `or`, else at the first `and`, else it loses an `array` at its end, else a
`not` at its start, and else it is a name all the same. There is no other precedence,
and no text is refused.
-/

namespace Switchboard.Parser

open Text

/-- The places where a word stands between word boundaries, from left to right: what is
before it and what is behind it. `last` is the character before the text. -/
def places (word : List Char) (last : Option Char) : List Char → List (List Char × List Char)
  | [] => []
  | c :: rest =>
      let here := if isBoundary last then
          (afterPrefix? word (c :: rest)).filter fun after => isBoundary after.head?
        else none
      (here.map fun after => ([], after)).toList ++
        (places word (some c) rest).map fun (before, after) => (c :: before, after)

/-- A text cut at the first place of a word with one line on either side of it. The blanks
between the word and what stands beside it may hold line feeds. -/
def cut? (word text : List Char) : Option (List Char × List Char) :=
  (places word none text).find? fun (before, after) => isLine (trim before) && isLine (trim after)

/-- What stands before a word that ends the text. -/
def beforeFinal? (word : List Char) (text : List Char) : Option (List Char) :=
  ((afterPrefix? word.reverse text.reverse).filter fun before => isBoundary before.head?).map
    List.reverse

/-- What stands after a word that starts the text. -/
def afterInitial? (word : List Char) (text : List Char) : Option (List Char) :=
  (afterPrefix? word text).filter fun after => isBoundary after.head?

/-- How a flat text splits at its deciding keyword. -/
inductive Split where
  | or (left right : List Char)
  | and (left right : List Char)
  | arrayOf (inner : List Char)
  | not (inner : List Char)
  deriving DecidableEq, Repr

/-- The parts of a split from left to right. -/
def Split.parts : Split → List (List Char)
  | or left right => [left, right]
  | and left right => [left, right]
  | arrayOf inner => [inner]
  | not inner => [inner]

/-- The text that is split so. -/
def Split.text : Split → List Char
  | or left right => left ++ ['o', 'r'] ++ right
  | and left right => left ++ ['a', 'n', 'd'] ++ right
  | arrayOf inner => inner ++ ['a', 'r', 'r', 'a', 'y']
  | not inner => ['n', 'o', 't'] ++ inner

/-- The split of a text without blanks at its edges that no name and no placeholder claims.
A keyword with more than one line on a side splits nothing; the line before `array` is all
that stands before it, blanks included. -/
def split? (text : List Char) : Option Split :=
  match cut? ['o', 'r'] text with
  | some (left, right) => some (.or left right)
  | none =>
      match cut? ['a', 'n', 'd'] text with
      | some (left, right) => some (.and left right)
      | none =>
          match (beforeFinal? ['a', 'r', 'r', 'a', 'y'] text).filter isLine with
          | some inner => some (.arrayOf inner)
          | none =>
              ((afterInitial? ['n', 'o', 't'] text).filter fun inner => isLine (trim inner)).map
                Split.not

theorem getLast?_cons_or (c : Char) (rest : List Char) (last : Option Char) :
    (c :: rest).getLast?.or last = rest.getLast?.or (some c) := by
  rw [List.getLast?_cons]
  cases rest.getLast? <;> rfl

/-- The places of a word are where it stands between boundaries. -/
theorem mem_places_iff {word before after text : List Char} {last : Option Char}
    (hword : word ≠ []) : (before, after) ∈ places word last text ↔
      text = before ++ word ++ after ∧ isBoundary (before.getLast?.or last) = true ∧
        isBoundary after.head? = true := by
  induction text generalizing last before with
  | nil => simp [places, hword]
  | cons c rest ih =>
      rw [places, List.mem_append]
      cases before with
      | nil =>
          have hlater : ([], after) ∉ (places word (some c) rest).map
              fun (before, after) => (c :: before, after) := by simp
          rw [or_iff_left hlater]
          by_cases hlast : isBoundary last = true
          · simp [hlast, afterPrefix?_eq_some_iff, Option.filter_eq_some_iff]
          · simp [hlast]
      | cons d front =>
          rw [getLast?_cons_or]
          have hlater : (d :: front, after) ∈ ((places word (some c) rest).map
              fun (before, after) => (c :: before, after)) ↔
                c = d ∧ (front, after) ∈ places word (some c) rest := by
            rw [List.mem_map]
            constructor
            · rintro ⟨sides, hsides, heq⟩
              cases heq
              exact ⟨rfl, hsides⟩
            · rintro ⟨rfl, hsides⟩
              exact ⟨_, hsides, rfl⟩
          rw [hlater, ih]
          simp only [Option.mem_toList, Option.map_eq_some_iff, Prod.mk.injEq, reduceCtorEq,
            false_and, and_false, exists_false, false_or, List.cons_append, List.cons.injEq]
          constructor
          · rintro ⟨rfl, hrest, hboundaries⟩
            exact ⟨⟨rfl, hrest⟩, hboundaries⟩
          · rintro ⟨⟨rfl, hrest⟩, hboundaries⟩
            exact ⟨rfl, hrest, hboundaries⟩

theorem mem_places_of_cut? {word text : List Char} {sides : List Char × List Char}
    (h : cut? word text = some sides) : sides ∈ places word none text :=
  List.mem_of_find?_eq_some h

theorem eq_append_of_beforeFinal? {word before text : List Char}
    (h : beforeFinal? word text = some before) : text = before ++ word := by
  simp only [beforeFinal?, Option.map_eq_some_iff, Option.filter_eq_some_iff] at h
  obtain ⟨after, ⟨hafter, _⟩, rfl⟩ := h
  have h := congrArg List.reverse (eq_append_of_afterPrefix? hafter)
  simpa using h

theorem eq_append_of_afterInitial? {word after text : List Char}
    (h : afterInitial? word text = some after) : text = word ++ after := by
  simp only [afterInitial?, Option.filter_eq_some_iff] at h
  exact eq_append_of_afterPrefix? h.1

/-- A split is a split of the whole text. -/
theorem eq_text_of_split? {text : List Char} {split : Split} (h : split? text = some split) :
    text = split.text := by
  unfold split? at h
  split at h
  · next hcut =>
      cases h
      exact ((mem_places_iff (by simp)).mp (mem_places_of_cut? hcut)).1
  · split at h
    · next hcut =>
        cases h
        exact ((mem_places_iff (by simp)).mp (mem_places_of_cut? hcut)).1
    · split at h
      · next hcut =>
          cases h
          exact eq_append_of_beforeFinal? (Option.filter_eq_some_iff.mp hcut).1
      · obtain ⟨inner, hcut, rfl⟩ := Option.map_eq_some_iff.mp h
        exact eq_append_of_afterInitial? (Option.filter_eq_some_iff.mp hcut).1

/-- Every part of a split is shorter than the text. -/
theorem length_lt_of_mem_parts {text part : List Char} {split : Split}
    (h : split? text = some split) (hpart : part ∈ split.parts) :
    part.length < text.length := by
  rw [eq_text_of_split? h]
  cases split with
  | or left right | and left right =>
      simp only [Split.parts, List.mem_cons, List.not_mem_nil, or_false] at hpart
      simp only [Split.text, List.length_append, List.length_cons, List.length_nil]
      rcases hpart with rfl | rfl <;> omega
  | arrayOf inner | not inner =>
      rw [Split.parts, List.mem_singleton] at hpart
      simp only [hpart, Split.text, List.length_append, List.length_cons, List.length_nil]
      omega

/-- The expression of a flat text without blanks at its edges. -/
def parseTrimmed (defined : String → Bool) (groups : List Expr) (text : List Char) : Expr :=
  if defined (String.ofList text) then .named (String.ofList text)
  else
    match Groups.find? groups text with
    | some group => group
    | none =>
        match _h : split? text with
        | none => .named (String.ofList text)
        | some (.or left right) =>
            .or (parseTrimmed defined groups (trim left))
              (parseTrimmed defined groups (trim right))
        | some (.and left right) =>
            .and (parseTrimmed defined groups (trim left))
              (parseTrimmed defined groups (trim right))
        | some (.arrayOf inner) => .arrayOf (parseTrimmed defined groups (trim inner))
        | some (.not inner) => .not (parseTrimmed defined groups (trim inner))
termination_by text.length
decreasing_by
  all_goals
    exact Nat.lt_of_le_of_lt (length_trim_le _)
      (length_lt_of_mem_parts _h (by simp [Split.parts]))

/-- The expression of a flat text. -/
def parseFlat (defined : String → Bool) (groups : List Expr) (text : List Char) : Expr :=
  parseTrimmed defined groups (trim text)

/-- The expression of a text in normal spelling. -/
def parseChars (defined : String → Bool) (text : List Char) : Expr :=
  let (groups, flat) := Groups.takeOut (parseFlat defined) [] (trim text)
  parseFlat defined groups flat

/-- The expression of a text in normal spelling; a defined name as a whole, or as
an operand, is that name. -/
def parse (defined : String → Bool) (normalized : String) : Expr :=
  parseChars defined normalized.toList

end Switchboard.Parser
