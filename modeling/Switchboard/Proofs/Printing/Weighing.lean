import Switchboard.Proofs.Grammar

/-!
What weighing blanks keeps of a text: all characters but the blanks; and that a keyword
has no place in it, since weighing never brings two plain word characters together nor
parts them. Parentheses put around a text are weighed apart from it, unless it has an
outer blank that would be kept beside them.
-/

namespace Switchboard

open Text

namespace Text

/-- The characters of a text that are no blanks. -/
def inked (text : List Char) : List Char :=
  text.filter fun c => !isBlank c

theorem inked_append (before after : List Char) :
    inked (before ++ after) = inked before ++ inked after :=
  List.filter_append _ _

theorem inked_cons_of_isBlank {c : Char} (h : isBlank c = true) (text : List Char) :
    inked (c :: text) = inked text := by
  simp [inked, h]

theorem inked_cons_of_not_isBlank {c : Char} (h : isBlank c = false) (text : List Char) :
    inked (c :: text) = c :: inked text := by
  simp [inked, h]

theorem inked_of_isBlank {text : List Char} (h : ∀ c ∈ text, isBlank c = true) :
    inked text = [] := by
  rw [inked, List.filter_eq_nil_iff]
  intro c hc
  simp [h c hc]

theorem inked_trim (text : List Char) : inked (trim text) = inked text := by
  obtain ⟨before, after, hbefore, hafter, heq⟩ := exists_blanks_trim text
  conv_rhs => rw [heq]
  rw [inked_append, inked_append, inked_of_isBlank hbefore, inked_of_isBlank hafter,
    List.nil_append, List.append_nil]

end Text

namespace Spelling

theorem inked_weighAfter (last : Char) (gap : Bool) (text : List Char) :
    inked (weighAfter last gap text) = inked text := by
  induction text generalizing last gap with
  | nil => rfl
  | cons c rest ih =>
      by_cases hc : isBlank c = true
      · rw [weighAfter_blank hc, ih, inked_cons_of_isBlank hc]
      · rw [Bool.not_eq_true] at hc
        simp only [weighAfter, hc, Bool.false_eq_true, if_false]
        split
        · rw [inked_cons_of_isBlank (by decide), inked_cons_of_not_isBlank hc, ih,
            inked_cons_of_not_isBlank hc]
        · rw [inked_cons_of_not_isBlank hc, ih, inked_cons_of_not_isBlank hc]

theorem inked_weigh (text : List Char) : inked (weigh text) = inked text := by
  induction text with
  | nil => rfl
  | cons c rest ih =>
      by_cases hc : isBlank c = true
      · rw [weigh_cons_of_isBlank hc, ih, inked_cons_of_isBlank hc]
      · rw [Bool.not_eq_true] at hc
        rw [weigh_cons_of_not_isBlank hc, inked_cons_of_not_isBlank hc, inked_weighAfter,
          inked_cons_of_not_isBlank hc]

/-- Weighing brings no new characters but spaces. -/
theorem mem_weigh {c : Char} (hc : isBlank c = false) (text : List Char) :
    c ∈ weigh text ↔ c ∈ text := by
  have hinked (text : List Char) : c ∈ inked text ↔ c ∈ text := by simp [inked, hc]
  rw [← hinked (weigh text), inked_weigh, hinked]

/-! Texts between parentheses -/

/-- No blank at the start of the text is kept behind an opening parenthesis. -/
def SnugHead (text : List Char) : Prop :=
  NoLeadingBlank text ∨ (weigh text).head?.map isPlain = some true

/-- No blank at the end of the text is kept before a closing parenthesis. -/
def SnugLast (text : List Char) : Prop :=
  NoTrailingBlank text ∨ (weigh text).getLast?.map isPlain = some true

theorem weigh_close {text : List Char} (h : SnugLast text) :
    weigh (text ++ [')']) = weigh text ++ [')'] := by
  have hclose : NoLeadingBlank [')'] := by
    rintro c ⟨⟩
    decide
  by_cases htext : NoTrailingBlank text
  · exact weigh_append_of_not_isBlank htext hclose
  · obtain ⟨init, c, hc, rfl⟩ := exists_of_not_noTrailingBlank htext
    have hinit : weigh (init ++ [c]) = weigh init := by
      rw [weigh_append_blank hc]
      exact glue_nil _
    have hplain := h.resolve_left htext
    rw [hinit] at hplain ⊢
    rw [List.append_assoc, List.singleton_append, weigh_append_blank hc]
    change glue (weigh init) [')'] = _
    cases hlast : (weigh init).getLast? with
    | none =>
        rw [hlast] at hplain
        cases hplain
    | some z =>
        rw [hlast, Option.map_some, Option.some.injEq] at hplain
        simp [glue, hlast, weighed, hplain, show isPlain ')' = false by decide]

/-- Parentheses are put around the weighed text. -/
theorem weigh_grouped {text : List Char} (hhead : SnugHead text) (hlast : SnugLast text) :
    weigh (['('] ++ (text ++ [')'])) = ['('] ++ (weigh text ++ [')']) := by
  have hopen : NoTrailingBlank ['('] := by
    rintro c ⟨⟩
    decide
  by_cases htext : NoLeadingBlank text
  · have hleading : NoLeadingBlank (text ++ [')']) := by
      intro c hc
      cases text with
      | nil =>
          cases hc
          decide
      | cons d rest => exact htext c hc
    rw [weigh_append_of_not_isBlank hopen hleading, weigh_close hlast]
    rfl
  · have hplain := hhead.resolve_left htext
    obtain ⟨c, rest, hc, rfl⟩ := exists_of_not_noLeadingBlank htext
    have hclose := weigh_close hlast
    rw [List.cons_append, weigh_cons_of_isBlank hc] at hclose
    have hwhole := weigh_append_blank hc ['('] (rest ++ [')'])
    rw [hclose] at hwhole
    change weigh (['('] ++ c :: (rest ++ [')'])) = _
    rw [hwhole]
    cases hweigh : weigh (c :: rest) with
    | nil =>
        rw [hweigh] at hplain
        cases hplain
    | cons d tail =>
        rw [hweigh, List.head?_cons, Option.map_some, Option.some.injEq] at hplain
        have hglue : glue ['('] (d :: (tail ++ [')'])) = '(' :: d :: (tail ++ [')']) := by
          simp [glue, weighed, hplain, show isPlain '(' = false by decide]
        exact hglue

theorem snugHead_append {text : List Char} (h : SnugHead text) (operator : Operator)
    (tail : List Char) : SnugHead (text ++ ' ' :: (operator.keyword ++ tail)) := by
  have hspace : isBlank ' ' = true := by decide
  obtain ⟨k, ks, hkeyword, hblank, hplain⟩ :
      ∃ k ks, operator.keyword = k :: ks ∧ isBlank k = false ∧ isPlain k = true := by
    cases operator <;> exact ⟨_, _, rfl, by decide, by decide⟩
  cases text with
  | nil =>
      refine Or.inr ?_
      rw [List.nil_append, weigh_cons_of_isBlank hspace, hkeyword, List.cons_append,
        weigh_cons_of_not_isBlank hblank, List.head?_cons, Option.map_some, hplain]
  | cons c rest =>
      refine h.imp id fun h => ?_
      rw [weigh_append_blank hspace]
      cases hweigh : weigh (c :: rest) with
      | nil =>
          rw [hweigh] at h
          cases h
      | cons d tail =>
          rw [hweigh] at h
          rwa [glue_cons]

theorem snugLast_append {text : List Char} (h : SnugLast text) (operator : Operator)
    (front : List Char) : SnugLast (front ++ operator.keyword ++ ' ' :: text) := by
  have hspace : isBlank ' ' = true := by decide
  obtain ⟨k, hkeyword, hblank, hplain⟩ :
      ∃ k, operator.keyword.getLast? = some k ∧ isBlank k = false ∧ isPlain k = true := by
    cases operator <;> exact ⟨_, rfl, by decide, by decide⟩
  have hlast : (front ++ operator.keyword).getLast? = some k := by
    rw [List.getLast?_append, hkeyword]
    rfl
  cases text with
  | nil =>
      refine Or.inr ?_
      have htrailing : NoTrailingBlank (front ++ operator.keyword) := by
        intro c hc
        rw [hlast] at hc
        cases hc
        exact hblank
      rw [weigh_append_blank hspace, show weigh [] = [] from rfl, glue_nil,
        getLast?_weigh htrailing, hlast, Option.map_some, hplain]
  | cons c rest =>
      rcases h with h | h
      · refine Or.inl fun d hd => h d ?_
        rwa [List.getLast?_append, List.getLast?_cons_cons, List.getLast?_cons,
          Option.some_or, ← List.getLast?_cons] at hd
      · refine Or.inr ?_
        rw [weigh_append_blank hspace]
        obtain ⟨gap, _, hglue, _⟩ :=
          exists_gap_glue (weigh (front ++ operator.keyword)) (weigh (c :: rest))
        rw [hglue, ← List.append_assoc, List.getLast?_append]
        cases hweigh : (weigh (c :: rest)).getLast? with
        | none =>
            rw [hweigh] at h
            cases h
        | some z => rwa [hweigh] at h

end Spelling

namespace Parser

open Spelling

theorem cutAtWord?_cons_eq_none_iff (word : List Char) (last : Option Char) (c : Char)
    (rest : List Char) :
    cutAtWord? word last (c :: rest) = none ↔
      (isBoundary last = true → ∀ after, afterPrefix? word (c :: rest) = some after →
        isBoundary after.head? = false) ∧ cutAtWord? word (some c) rest = none := by
  rw [cutAtWord?_cons]
  by_cases hlast : isBoundary last = true
  · cases hafter : afterPrefix? word (c :: rest) with
    | none => simp [hlast]
    | some after =>
        cases hhead : isBoundary after.head? with
        | true => simp [hlast, hhead, Option.filter]
        | false => simp [hlast, hhead, Option.filter]
  · simp [hlast]

/-- A plain word that starts a weighed text starts the text itself. -/
theorem exists_afterPrefix?_of_weighAfter {word after : List Char} {c : Char}
    (hplain : ∀ k ∈ word, isPlain k = true) {rest : List Char}
    (h : afterPrefix? word (c :: weighAfter c false rest) = some after)
    (hword : word ≠ []) :
    ∃ after' last, afterPrefix? word (c :: rest) = some after' ∧
      after = weighAfter last false after' := by
  induction word generalizing c rest with
  | nil => exact absurd rfl hword
  | cons k ks ih =>
      simp only [afterPrefix?] at h ⊢
      split at h
      · next hk =>
          subst hk
          have hk : isPlain k = true := hplain k List.mem_cons_self
          cases ks with
          | nil =>
              cases h
              exact ⟨rest, k, by simp [afterPrefix?], rfl⟩
          | cons k' ks =>
              have hk' : isPlain k' = true := hplain k' (by simp)
              cases rest with
              | nil => cases h
              | cons d rest =>
                  by_cases hd : isBlank d = true
                  · -- the next character would not be plain
                    have hne (e : Char) (tail : List Char) (he : isPlain e = false) :
                        afterPrefix? (k' :: ks) (e :: tail) ≠ some after := by
                      have hne : k' ≠ e := by
                        rintro rfl
                        rw [hk'] at he
                        cases he
                      rw [afterPrefix?, if_neg hne]
                      simp
                    rw [weighAfter_blank hd, weighAfter_true] at h
                    exfalso
                    cases hrest : weigh rest with
                    | nil =>
                        rw [hrest] at h
                        cases h
                    | cons e tail =>
                        rw [hrest, weighed, hk] at h
                        cases he : isPlain e with
                        | true =>
                            rw [he] at h
                            exact hne ' ' (e :: tail) (by decide) h
                        | false =>
                            rw [he] at h
                            exact hne e tail he h
                  · rw [Bool.not_eq_true] at hd
                    rw [weighAfter_false_cons hd, weigh_cons_of_not_isBlank hd] at h
                    rw [if_pos rfl]
                    exact ih (fun k hk => hplain k (List.mem_cons_of_mem _ hk)) h (by simp)
      · cases h

theorem isBoundary_head?_weighAfter {text : List Char} (h : isBoundary text.head? = false)
    (last : Char) : isBoundary (weighAfter last false text).head? = false := by
  cases text with
  | nil => exact h
  | cons c rest =>
      have hc : isBlank c = false := by
        rw [Bool.eq_false_iff]
        intro hc
        rw [List.head?_cons, isBoundary_some, isWord_eq_false_of_isBlank hc] at h
        cases h
      rw [weighAfter_false_cons hc, weigh_cons_of_not_isBlank hc]
      exact h

/-- If a plain word runs on where it starts a text, it does so in the weighed text. -/
theorem isBoundary_of_weighAfter {word : List Char} (hword : word ≠ [])
    (hplain : ∀ k ∈ word, isPlain k = true) {c : Char} {rest : List Char}
    (h : ∀ after, afterPrefix? word (c :: rest) = some after → isBoundary after.head? = false) :
    ∀ after, afterPrefix? word (c :: weighAfter c false rest) = some after →
      isBoundary after.head? = false := by
  intro after hafter
  obtain ⟨after', last, hafter', rfl⟩ := exists_afterPrefix?_of_weighAfter hplain hafter hword
  exact isBoundary_head?_weighAfter (h after' hafter') last

/-- A plain word that is free in a text is free in it when its blanks are weighed, behind
a last character that bounds a word only if there was a boundary before the text. -/
theorem cutAtWord?_weighAfter {word : List Char} (hword : word ≠ [])
    (hplain : ∀ k ∈ word, isPlain k = true) {last : Char} {gap : Bool} {before : Option Char}
    (hbefore : if gap then isBoundary before = true else before = some last) {text : List Char}
    (h : cutAtWord? word before text = none) :
    cutAtWord? word (some last) (weighAfter last gap text) = none := by
  induction text generalizing last gap before with
  | nil => rfl
  | cons c rest ih =>
      obtain ⟨hhere, hrest⟩ := (cutAtWord?_cons_eq_none_iff word before c rest).mp h
      by_cases hc : isBlank c = true
      · have hboundary : isBoundary (some c) = true := isBoundary_of_isBlank hc
        rw [weighAfter_blank hc]
        exact ih hboundary hrest
      · rw [Bool.not_eq_true] at hc
        have htail : cutAtWord? word (some c) (weighAfter c false rest) = none := by
          apply ih _ hrest
          rfl
        simp only [weighAfter, hc, Bool.false_eq_true, if_false]
        split
        · next hsame =>
            rw [Bool.and_eq_true] at hsame
            rw [if_pos hsame.1] at hbefore
            rw [cutAtWord?_cons_eq_none_iff, cutAtWord?_cons_eq_none_iff]
            refine ⟨fun _ after hafter => ?_,
              fun _ => isBoundary_of_weighAfter hword hplain (hhere hbefore), htail⟩
            -- the word does not start with the space
            exfalso
            obtain ⟨k, ks, rfl⟩ := List.exists_cons_of_ne_nil hword
            have hk : k ≠ ' ' := by
              rintro rfl
              exact absurd (hplain ' ' List.mem_cons_self) (by decide)
            rw [afterPrefix?, if_neg hk] at hafter
            cases hafter
        · rw [cutAtWord?_cons_eq_none_iff]
          refine ⟨fun hlast => isBoundary_of_weighAfter hword hplain (hhere ?_), htail⟩
          cases gap with
          | true => exact hbefore
          | false =>
              have hbefore : before = some last := hbefore
              rw [hbefore]
              exact hlast

theorem cutAtWord?_weigh {word : List Char} (hword : word ≠ [])
    (hplain : ∀ k ∈ word, isPlain k = true) {before : Option Char}
    (hbefore : isBoundary before = true) {text : List Char}
    (h : cutAtWord? word before text = none) : Free word (weigh text) := by
  induction text generalizing before with
  | nil => rfl
  | cons c rest ih =>
      obtain ⟨hhere, hrest⟩ := (cutAtWord?_cons_eq_none_iff word before c rest).mp h
      by_cases hc : isBlank c = true
      · have hboundary : isBoundary (some c) = true := isBoundary_of_isBlank hc
        rw [weigh_cons_of_isBlank hc]
        exact ih hboundary hrest
      · rw [Bool.not_eq_true] at hc
        rw [weigh_cons_of_not_isBlank hc, Free, cutAtWord?_cons_eq_none_iff]
        refine ⟨fun _ => isBoundary_of_weighAfter hword hplain (hhere hbefore), ?_⟩
        apply cutAtWord?_weighAfter hword hplain _ hrest
        rfl

/-- Weighing brings no keyword into a text. -/
theorem Free.weigh (operator : Operator) {text : List Char} (h : Free operator.keyword text) :
    Free operator.keyword (weigh text) :=
  cutAtWord?_weigh (by cases operator <;> simp [Operator.keyword])
    (List.all_eq_true.mp (by cases operator <;> rfl)) rfl h

end Parser

end Switchboard
