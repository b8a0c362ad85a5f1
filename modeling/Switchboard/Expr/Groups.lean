import Switchboard.Expr.Basic
import Switchboard.Text.Blank

/-!
Parenthesized groups. The text of an expression is made flat by taking out its
groups one at a time, always the innermost group that starts first, and leaving a
placeholder for each: its number between two private-use marks. A parenthesis
without a partner stays in the text. Each step takes out one opening parenthesis,
so the steps end, and in the flat text no `(` stands before a `)`.
-/

namespace Switchboard.Groups

open Text

/-- The mark before the number of a placeholder. -/
def openMark : Char := '\uE000'

/-- The mark after the number of a placeholder. -/
def closeMark : Char := '\uE001'

/-- The text that stands for a group. -/
def placeholder (index : Nat) : List Char :=
  openMark :: Nat.toDigits 10 index ++ [closeMark]

/-- The number that a run of digits writes, after an optional plus sign. -/
def readIndex? (text : List Char) : Option Nat :=
  let digits := match text with
    | '+' :: rest => rest
    | _ => text
  if digits.isEmpty || !digits.all Char.isDigit then none
  else some (Nat.ofDigitChars 10 digits 0)

/-- The group that a text stands for, if the whole text is a placeholder. -/
def find? (groups : List Expr) (text : List Char) : Option Expr :=
  match text with
  | [] => none
  | c :: rest =>
      if c = openMark && rest.getLast? = some closeMark then
        (readIndex? rest.dropLast).bind fun index => groups[index]?
      else none

/-- A text cut at its first parenthesis, if that one closes. -/
def cutAtClose? : List Char → Option (List Char × List Char)
  | [] => none
  | c :: rest =>
      if c = ')' then some ([], rest)
      else if c = '(' then none
      else (cutAtClose? rest).map fun (inner, after) => (c :: inner, after)

/-- The first group without a group inside: the text before it, in it and after
it, parentheses left out. -/
def innermost? : List Char → Option (List Char × List Char × List Char)
  | [] => none
  | c :: rest =>
      match if c = '(' then cutAtClose? rest else none with
      | some (inner, after) => some ([], inner, after)
      | none => (innermost? rest).map fun (before, inner, after) => (c :: before, inner, after)

theorem eq_of_cutAtClose? {text inner after : List Char}
    (h : cutAtClose? text = some (inner, after)) :
    text = inner ++ ')' :: after ∧ '(' ∉ inner ∧ ')' ∉ inner := by
  induction text generalizing inner after with
  | nil => simp [cutAtClose?] at h
  | cons c rest ih =>
      by_cases hclose : c = ')'
      · simp only [cutAtClose?, hclose, if_true, Option.some.injEq, Prod.mk.injEq] at h
        obtain ⟨rfl, rfl⟩ := h
        simp [hclose]
      · by_cases hopen : c = '('
        · simp [cutAtClose?, hopen] at h
        · simp only [cutAtClose?, hclose, hopen, if_false, Option.map_eq_some_iff,
            Prod.mk.injEq, Prod.exists] at h
          obtain ⟨i, a, hrest, rfl, rfl⟩ := h
          obtain ⟨rfl, hi⟩ := ih hrest
          simp [hi, Ne.symm hclose, Ne.symm hopen]

theorem eq_of_innermost? {text before inner after : List Char}
    (h : innermost? text = some (before, inner, after)) :
    text = before ++ '(' :: inner ++ ')' :: after ∧ '(' ∉ inner ∧ ')' ∉ inner := by
  induction text generalizing before inner after with
  | nil => simp [innermost?] at h
  | cons c rest ih =>
      unfold innermost? at h
      split at h
      · next i a hcut =>
          simp only [Option.some.injEq, Prod.mk.injEq] at h
          obtain ⟨rfl, rfl, rfl⟩ := h
          split at hcut
          · next hopen =>
              obtain ⟨rfl, hi⟩ := eq_of_cutAtClose? hcut
              exact ⟨by simp [hopen], hi⟩
          · simp at hcut
      · simp only [Option.map_eq_some_iff, Prod.mk.injEq, Prod.exists] at h
        obtain ⟨b, i, a, hrest, rfl, rfl, rfl⟩ := h
        obtain ⟨rfl, hi⟩ := ih hrest
        exact ⟨by simp, hi⟩

/-- The text after a group has been taken out. -/
def replaceGroup (index : Nat) (before after : List Char) : List Char :=
  trim (before ++ ' ' :: placeholder index ++ ' ' :: after)

theorem not_mem_placeholder (index : Nat) : '(' ∉ placeholder index := by
  intro h
  simp only [placeholder, List.cons_append, List.mem_cons, List.mem_append, List.not_mem_nil,
    or_false] at h
  rcases h with h | h | h
  · exact absurd h (by decide)
  · exact absurd (Nat.isDigit_of_mem_toDigits (by decide) (by decide) h) (by decide)
  · exact absurd h (by decide)

/-- Taking out a group takes out its opening parenthesis. -/
theorem count_replaceGroup_lt {text before inner after : List Char} (index : Nat)
    (h : innermost? text = some (before, inner, after)) :
    (replaceGroup index before after).count '(' < text.count '(' := by
  obtain ⟨rfl, _, _⟩ := eq_of_innermost? h
  have shorter := (trim_sublist (before ++ ' ' :: placeholder index ++ ' ' :: after)).count_le '('
  have none : (placeholder index).count '(' = 0 :=
    List.count_eq_zero.mpr (not_mem_placeholder index)
  simp only [List.count_append, List.count_cons, none] at shorter ⊢
  simp only [replaceGroup]
  simp at shorter ⊢
  omega

/-- Take out all groups. `parse` reads the flat text of a group, given the groups
taken out before it. Returns the groups in the order of their numbers, and the flat
text that is left. -/
def takeOut (parse : List Expr → List Char → Expr) (groups : List Expr) (text : List Char) :
    List Expr × List Char :=
  match _h : innermost? text with
  | none => (groups, text)
  | some (before, inner, after) =>
      takeOut parse (groups ++ [parse groups (trim inner)])
        (replaceGroup groups.length before after)
termination_by text.count '('
decreasing_by exact count_replaceGroup_lt _ _h

end Switchboard.Groups
