import Switchboard.Expr.Basic
import Switchboard.Proofs.Keyword
import Switchboard.Proofs.NormalForm

/-!
The concrete syntax of type expressions. Operators bind in levels: `or` binds weakest,
then `and`, then `array` behind its operand, then `not` before its operand; a word and a
text in parentheses stand at every level. Blanks may stand around every phrase, and have
to where two words would run together. An operator is a keyword or, with `signs`, its
sign. The normal spelling of a phrase is a phrase for the same tree without signs.
-/

namespace Switchboard

open Text Spelling
open Switchboard.Parser (IsOperandWord orWord andWord notWord arrayWord)

/-- The operators of type expressions. -/
inductive Operator where
  | or
  | and
  | not
  | array
  deriving DecidableEq, Repr

namespace Operator

def keyword : Operator → List Char
  | or => orWord
  | and => andWord
  | not => notWord
  | array => arrayWord

def sign : Operator → List Char
  | or => ['|', '|']
  | and => ['&', '&']
  | not => ['!']
  | array => ['[', ']']

/-- How an operator may be written. -/
def Written (signs : Bool) (operator : Operator) (text : List Char) : Prop :=
  text = operator.keyword ∨ (signs = true ∧ text = operator.sign)

theorem written_keyword (signs : Bool) (operator : Operator) :
    operator.Written signs operator.keyword :=
  Or.inl rfl

end Operator

/-- How tightly a phrase is bound. -/
inductive Level where
  | atom
  | not
  | array
  | and
  | or
  deriving DecidableEq, Repr

namespace Level

/-- The place of a level, from the tightest up. -/
def rank : Level → Nat
  | atom => 0
  | not => 1
  | array => 2
  | and => 3
  | or => 4

end Level

/-- The texts that spell a tree at a level. -/
inductive Phrase (signs : Bool) : Level → Expr → List Char → Prop
  | word {name : String} (h : IsOperandWord name) : Phrase signs .atom (.named name) name.toList
  | group {tree : Expr} {text : List Char} (h : Phrase signs .or tree text) :
      Phrase signs .atom tree (['('] ++ (text ++ [')']))
  | not {tree : Expr} {operator text : List Char} (hop : Operator.not.Written signs operator)
      (h : Phrase signs .not tree text) (hapart : Apart operator text) :
      Phrase signs .not (.not tree) (operator ++ text)
  | array {tree : Expr} {operator text : List Char} (hop : Operator.array.Written signs operator)
      (h : Phrase signs .array tree text) (hapart : Apart text operator) :
      Phrase signs .array (.arrayOf tree) (text ++ operator)
  | and {left right : Expr} {operator before after : List Char}
      (hop : Operator.and.Written signs operator) (hleft : Phrase signs .array left before)
      (hright : Phrase signs .and right after) (hbefore : Apart before operator)
      (hafter : Apart operator after) :
      Phrase signs .and (.and left right) (before ++ (operator ++ after))
  | or {left right : Expr} {operator before after : List Char}
      (hop : Operator.or.Written signs operator) (hleft : Phrase signs .and left before)
      (hright : Phrase signs .or right after) (hbefore : Apart before operator)
      (hafter : Apart operator after) :
      Phrase signs .or (.or left right) (before ++ (operator ++ after))
  | weaken {low high : Level} {tree : Expr} {text : List Char} (h : Phrase signs low tree text)
      (hle : low.rank ≤ high.rank) : Phrase signs high tree text
  | blankBefore {level : Level} {tree : Expr} {text : List Char} {c : Char}
      (hc : isBlank c = true) (h : Phrase signs level tree text) :
      Phrase signs level tree (c :: text)
  | blankAfter {level : Level} {tree : Expr} {text : List Char} {c : Char}
      (hc : isBlank c = true) (h : Phrase signs level tree text) :
      Phrase signs level tree (text ++ [c])

namespace Phrase

variable {signs : Bool} {level : Level} {tree : Expr} {text : List Char}

theorem ne_nil (h : Phrase signs level tree text) : text ≠ [] := by
  induction h with
  | word h =>
      intro heq
      have hplain := h.1
      rw [isPlainWord, heq] at hplain
      cases hplain
  | group | blankBefore | blankAfter => simp
  | not _ _ _ ih | array _ _ _ ih | and _ _ _ _ _ ih _ | or _ _ _ _ _ ih _ => simp [ih]
  | weaken _ _ ih => exact ih

/-- A phrase does not end with a sign that could be the first half of an operator. -/
theorem ne_of_mem_getLast? (h : Phrase signs level tree text) :
    ∀ c ∈ text.getLast?, c ≠ '|' ∧ c ≠ '&' ∧ c ≠ '[' := by
  have happend {before after : List Char} (hne : after ≠ [])
      (hafter : ∀ c ∈ after.getLast?, c ≠ '|' ∧ c ≠ '&' ∧ c ≠ '[') :
      ∀ c ∈ (before ++ after).getLast?, c ≠ '|' ∧ c ≠ '&' ∧ c ≠ '[' := by
    intro c hc
    rw [List.getLast?_append_of_ne_nil _ hne] at hc
    exact hafter c hc
  induction h with
  | @word name h =>
      intro c hc
      have hplain := h.1
      rw [isPlainWord, Bool.and_eq_true] at hplain
      have hc := List.all_eq_true.mp hplain.2 c (List.mem_of_getLast? hc)
      refine ⟨?_, ?_, ?_⟩ <;> rintro rfl <;> exact absurd hc (by decide)
  | group _ ih =>
      apply happend (by simp)
      apply happend (by simp)
      rintro c ⟨⟩
      decide
  | not _ h _ ih => exact happend h.ne_nil ih
  | array hop _ _ ih =>
      rcases hop with rfl | ⟨_, rfl⟩
      · exact happend (by simp [Operator.keyword]) (by simp [Operator.keyword])
      · exact happend (by simp [Operator.sign]) (by simp [Operator.sign])
  | and _ _ h _ _ _ ih | or _ _ h _ _ _ ih =>
      exact happend (by simp [h.ne_nil]) (happend h.ne_nil ih)
  | weaken _ _ ih => exact ih
  | blankBefore _ h ih =>
      intro c hc
      rw [List.getLast?_cons_of_ne_nil h.ne_nil] at hc
      exact ih c hc
  | @blankAfter _ _ text c hc h ih =>
      apply happend (by simp)
      rintro d ⟨⟩
      refine ⟨?_, ?_, ?_⟩ <;> rintro rfl <;> exact absurd hc (by decide)

theorem not_clash (h : Phrase signs level tree text) (after : List Char) :
    ∀ x ∈ text.getLast?, ∀ y ∈ after.head?, ¬ Clash x y := by
  intro x hx y _ hclash
  obtain ⟨hor, hand, harray⟩ := h.ne_of_mem_getLast? x hx
  rcases hclash with ⟨heq, _⟩ | ⟨heq, _⟩ | ⟨heq, _⟩
  · exact hor heq
  · exact hand heq
  · exact harray heq

theorem append_gap {gap : List Char} (h : Phrase signs level tree text)
    (hgap : gap = [] ∨ gap = [' ']) : Phrase signs level tree (gap ++ text) := by
  rcases hgap with rfl | rfl
  · exact h
  · exact h.blankBefore (by decide)

theorem concat_gap {gap : List Char} (h : Phrase signs level tree text)
    (hgap : gap = [] ∨ gap = [' ']) : Phrase signs level tree (text ++ gap) := by
  rcases hgap with rfl | rfl
  · rwa [List.append_nil]
  · exact h.blankAfter (by decide)

end Phrase

namespace Spelling

theorem Apart.concat_gap {before gap after : List Char} (h : Apart before (gap ++ after))
    (hgap : gap = [] ∨ gap = [' ']) : Apart (before ++ gap) after := by
  rcases hgap with rfl | rfl
  · rwa [List.append_nil]
  · intro x hx y _
    rw [List.getLast?_append] at hx
    cases hx
    exact Or.inl (by decide)

theorem Apart.append_right {before word : List Char} (h : Apart before word) (hne : word ≠ [])
    (after : List Char) : Apart before (word ++ after) := by
  intro x hx y hy
  rw [List.head?_append_of_ne_nil _ hne] at hy
  exact h x hx y hy

theorem Apart.of_append_right {before word after : List Char} (h : Apart before (word ++ after))
    (hne : word ≠ []) : Apart before word := by
  intro x hx y hy
  apply h x hx y
  rwa [List.head?_append_of_ne_nil _ hne]

/-- The normal form of two texts that do not run together. -/
theorem normalChars_append_of_apart {before after : List Char} (hapart : Apart before after)
    (hclash : ∀ x ∈ before.getLast?, ∀ y ∈ after.head?, ¬ Clash x y) :
    ∃ gap, (gap = [] ∨ gap = [' ']) ∧
      normalChars (before ++ after) = normalChars before ++ (gap ++ normalChars after) ∧
      Apart (normalChars before) (gap ++ normalChars after) := by
  have hspelled : Apart (spellOut before) (spellOut after) := by
    intro x hx y hy
    rcases getLast?_spellOut before with hlast | hlast
    · rw [hlast] at hx
      cases hx
      exact Or.inl (by decide)
    · rcases head?_spellOut after with hhead | hhead
      · rw [hhead] at hy
        cases hy
        exact Or.inr (by decide)
      · rw [hlast] at hx
        rw [hhead] at hy
        exact hapart x hx y hy
  rw [normalChars, spellOut_append hclash]
  exact weigh_append_of_apart hspelled

theorem normalChars_cons_of_isBlank {c : Char} (hc : isBlank c = true) (text : List Char) :
    normalChars (c :: text) = normalChars text := by
  have hbang : c ≠ '!' := by
    rintro rfl
    exact absurd hc (by decide)
  rw [normalChars, spellOut_cons hbang fun d _ => not_clash_blank_left hc d,
    weigh_cons_of_isBlank hc, normalChars]

theorem normalChars_concat_of_isBlank {c : Char} (hc : isBlank c = true) (text : List Char) :
    normalChars (text ++ [c]) = normalChars text := by
  have hclash : ∀ x ∈ text.getLast?, ∀ y ∈ [c].head?, ¬ Clash x y := by
    rintro x _ y ⟨⟩
    exact not_clash_blank_right hc x
  have hsingle : spellOut [c] = [c] := by
    apply spellOut_of_signFree
    exact SignFree.cons (Or.inl hc) ⟨by simp, .nil⟩
  rw [normalChars, spellOut_append hclash, hsingle, weigh_append_blank hc,
    show weigh [] = [] from rfl, glue_nil, normalChars]

theorem normalChars_written {operator : Operator} {signs : Bool} {word : List Char}
    (h : operator.Written signs word) : normalChars word = operator.keyword := by
  rcases h with rfl | ⟨_, rfl⟩ <;> cases operator <;> decide

/-- An operator before a text is spelled as its keyword. -/
theorem normalChars_written_append {operator : Operator} {signs : Bool} {word after : List Char}
    (h : operator.Written signs word) (hapart : Apart word after) :
    ∃ gap, (gap = [] ∨ gap = [' ']) ∧
      normalChars (word ++ after) = operator.keyword ++ (gap ++ normalChars after) ∧
      Apart operator.keyword (gap ++ normalChars after) := by
  rcases h with rfl | ⟨_, rfl⟩
  · have hclash : ∀ x ∈ operator.keyword.getLast?, ∀ y ∈ after.head?, ¬ Clash x y := by
      intro x hx y _ hclash
      have hplain : isPlain x = true := by
        cases operator <;> cases hx <;> decide
      rw [(isPlain_of_clash hclash).1] at hplain
      cases hplain
    have h := normalChars_append_of_apart hapart hclash
    rwa [normalChars_written (Operator.written_keyword true operator)] at h
  · -- a sign is spelled out with a blank behind it
    have hspelled : spellOut (operator.sign ++ after) =
        ' ' :: operator.keyword ++ ' ' :: spellOut after := by
      cases operator <;> simp [Operator.sign, Operator.keyword, spellOut]
    have hkeyword : weigh (' ' :: operator.keyword) = operator.keyword := by
      cases operator <;> decide
    rw [normalChars, hspelled, weigh_append_blank (by decide), hkeyword]
    exact exists_gap_glue operator.keyword (normalChars after)

/-- An operator between two texts is spelled as its keyword. -/
theorem normalChars_append_written {operator : Operator} {signs : Bool}
    {word before after : List Char} (h : operator.Written signs word)
    (hbefore : Apart before word) (hafter : Apart word after)
    (hclash : ∀ x ∈ before.getLast?, ∀ y ∈ (word ++ after).head?, ¬ Clash x y) :
    ∃ gap gap', (gap = [] ∨ gap = [' ']) ∧ (gap' = [] ∨ gap' = [' ']) ∧
      normalChars (before ++ (word ++ after)) =
        (normalChars before ++ gap) ++ (operator.keyword ++ (gap' ++ normalChars after)) ∧
      Apart (normalChars before ++ gap) operator.keyword ∧
      Apart operator.keyword (gap' ++ normalChars after) := by
  have hword : word ≠ [] := by
    rcases h with rfl | ⟨_, rfl⟩ <;> cases operator <;> decide
  have hkeyword : operator.keyword ≠ [] := by cases operator <;> decide
  obtain ⟨gap, hgap, heq, hmeet⟩ :=
    normalChars_append_of_apart (hbefore.append_right hword after) hclash
  obtain ⟨gap', hgap', heq', hmeet'⟩ := normalChars_written_append h hafter
  rw [heq'] at heq hmeet
  refine ⟨gap, gap', hgap, hgap', ?_, ?_, hmeet'⟩
  · rw [heq, List.append_assoc]
  · exact (hmeet.concat_gap hgap).of_append_right hkeyword

end Spelling

/-- The normal spelling of a phrase is a phrase without signs for the same tree. -/
theorem Phrase.normalChars {signs : Bool} {level : Level} {tree : Expr} {text : List Char}
    (h : Phrase signs level tree text) :
    Phrase false level tree (Spelling.normalChars text) := by
  induction h with
  | word h =>
      have hplain := h.1
      rw [isPlainWord, Bool.and_eq_true] at hplain
      rw [normalChars_of_all_isPlain hplain.2]
      exact .word h
  | @group tree text h ih =>
      have hopen : Apart ['('] (text ++ [')']) := by
        rintro x ⟨⟩ y _
        exact Or.inl (by decide)
      have hclose : Apart text [')'] := by
        rintro x _ y ⟨⟩
        exact Or.inr (by decide)
      obtain ⟨gap, hgap, heq, _⟩ := normalChars_append_of_apart hopen (by
        rintro x ⟨⟩ y _ hclash
        rcases hclash with ⟨hx, _⟩ | ⟨hx, _⟩ | ⟨hx, _⟩ <;> exact absurd hx (by decide))
      obtain ⟨gap', hgap', heq', _⟩ := normalChars_append_of_apart hclose (h.not_clash _)
      rw [heq, heq', show Spelling.normalChars ['('] = ['('] by decide,
        show Spelling.normalChars [')'] = [')'] by decide]
      have hgroup := Phrase.group ((ih.concat_gap hgap').append_gap hgap)
      simpa only [List.append_assoc] using hgroup
  | not hop _ hapart ih =>
      obtain ⟨gap, hgap, heq, hmeet⟩ := normalChars_written_append hop hapart
      rw [heq]
      exact .not (Operator.written_keyword false .not) (ih.append_gap hgap) hmeet
  | @array tree operator text hop h hapart ih =>
      obtain ⟨gap, hgap, heq, hmeet⟩ := normalChars_append_of_apart hapart (h.not_clash _)
      rw [heq, normalChars_written hop]
      rw [normalChars_written hop] at hmeet
      rw [← List.append_assoc]
      exact .array (Operator.written_keyword false .array) (ih.concat_gap hgap)
        (hmeet.concat_gap hgap)
  | and hop hleft _ hbefore hafter ihl ihr =>
      obtain ⟨gap, gap', hgap, hgap', heq, hmeet, hmeet'⟩ :=
        normalChars_append_written hop hbefore hafter (hleft.not_clash _)
      rw [heq]
      exact .and (Operator.written_keyword false .and) (ihl.concat_gap hgap)
        (ihr.append_gap hgap') hmeet hmeet'
  | or hop hleft _ hbefore hafter ihl ihr =>
      obtain ⟨gap, gap', hgap, hgap', heq, hmeet, hmeet'⟩ :=
        normalChars_append_written hop hbefore hafter (hleft.not_clash _)
      rw [heq]
      exact .or (Operator.written_keyword false .or) (ihl.concat_gap hgap)
        (ihr.append_gap hgap') hmeet hmeet'
  | weaken _ hle ih => exact .weaken ih hle
  | blankBefore hc _ ih => rwa [normalChars_cons_of_isBlank hc]
  | blankAfter hc _ ih => rwa [normalChars_concat_of_isBlank hc]

end Switchboard
