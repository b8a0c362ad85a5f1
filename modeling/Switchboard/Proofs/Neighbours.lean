import Switchboard.Proofs.Keyword

/-!
What stands beside a stretch of a text, as far as it matters for the way the text splits. From
the stretch to the nearest `or`, `and` or end of the text, nothing but `not` may stand before
it and nothing but `array` behind it if the stretch is to become an operand of its own. Both
directions are one relation: the left side is read backwards.
-/

namespace Switchboard.Parser

open Text

/-- Going away from a placeholder, only blanks and this affix are met before the text ends or
one of the stops is reached. -/
inductive Ends (affix : List Char) (stops : List (List Char)) : List Char → Prop
  | nil : Ends affix stops []
  | blank {c : Char} {rest : List Char} (hc : isBlank c = true) (h : Ends affix stops rest) :
      Ends affix stops (c :: rest)
  | affix {rest : List Char} (hrest : isBoundary rest.head? = true) (h : Ends affix stops rest) :
      Ends affix stops (affix ++ rest)
  | stop {word rest : List Char} (hword : word ∈ stops) (hrest : isBoundary rest.head? = true) :
      Ends affix stops (word ++ rest)

theorem isBoundary_getLast?_of_append (before : List Char) {after : List Char}
    (h : isBoundary (before ++ after).getLast? = true) : isBoundary after.getLast? = true := by
  cases hlast : after.getLast? with
  | none => rfl
  | some c => simpa [List.getLast?_append, hlast] using h

theorem isBoundary_head?_of_append {before after : List Char}
    (h : isBoundary (before ++ after).head? = true) : isBoundary before.head? = true := by
  cases before with
  | nil => rfl
  | cons c rest => exact h

/-- The last thing in a text that ends: a blank or the affix, or else a stop with anything
behind it. -/
inductive Final (affix : List Char) (stops : List (List Char)) (text : List Char) : Prop
  | blank (h : ¬ NoTrailingBlank text)
  | affix (front : List Char) (heq : text = front ++ affix)
      (hfront : isBoundary front.getLast? = true)
  | stop (word front back : List Char) (hword : word ∈ stops)
      (heq : text = front ++ word ++ back) (hfront : isBoundary front.getLast? = true)
      (hback : isBoundary back.head? = true)

section Ends

variable {affix : List Char} {stops : List (List Char)} {before after text : List Char}
  (hwords : ∀ word ∈ affix :: stops, word ≠ [] ∧ ∀ c ∈ word, isWord c = true)

include hwords

/-- Where a word of word characters and the rest of a text are cut in two between them, the
word stands in the first part, unless the first part is empty or the word itself. -/
theorem Ends.cut_word {word rest : List Char} (hword : word ∈ affix :: stops)
    (heq : word ++ rest = before ++ after)
    (hmeet : isBoundary before.getLast? = true ∨ isBoundary after.head? = true) :
    before = [] ∨ ∃ middle, before = word ++ middle ∧ rest = middle ++ after := by
  obtain ⟨_, hall⟩ := hwords word hword
  rcases List.append_eq_append_iff.mp heq with ⟨middle, hbefore, hrest⟩ | ⟨middle, rfl, rfl⟩
  · exact Or.inr ⟨middle, hbefore, hrest⟩
  · rcases hmeet with hmeet | hmeet
    · exact Or.inl (eq_nil_of_isBoundary_getLast? (fun c hc => hall c (by simp [hc])) hmeet)
    · have hmiddle : middle = [] :=
        eq_nil_of_isBoundary_head? (fun c hc => hall c (by simp [hc])) hmeet
      exact Or.inr ⟨[], by simp [hmiddle]⟩

/-- What stands behind a text that ends makes no difference to what stands in it, if no word
characters meet there. -/
theorem Ends.append_iff (hafter : Ends affix stops after)
    (hmeet : isBoundary before.getLast? = true ∨ isBoundary after.head? = true) :
    Ends affix stops (before ++ after) ↔ Ends affix stops before := by
  constructor
  · intro h
    generalize htext : before ++ after = text at h
    induction h generalizing before with
    | nil =>
        obtain ⟨rfl, _⟩ := List.append_eq_nil_iff.mp htext
        exact .nil
    | @blank c rest hc _ ih =>
        cases before with
        | nil => exact .nil
        | cons d before =>
            obtain ⟨rfl, rfl⟩ := List.cons.inj htext
            apply Ends.blank hc (ih _ rfl)
            exact hmeet.imp (isBoundary_getLast?_of_append [d]) id
    | @affix rest hrest _ ih =>
        rcases Ends.cut_word hwords List.mem_cons_self htext.symm hmeet with
          rfl | ⟨middle, rfl, rfl⟩
        · exact .nil
        · apply Ends.affix (isBoundary_head?_of_append hrest) (ih _ rfl)
          exact hmeet.imp (isBoundary_getLast?_of_append _) id
    | @stop word rest hword hrest =>
        rcases Ends.cut_word hwords (List.mem_cons_of_mem affix hword) htext.symm hmeet with
          rfl | ⟨middle, rfl, rfl⟩
        · exact .nil
        · exact .stop hword (isBoundary_head?_of_append hrest)
  · intro h
    have hhead {word rest : List Char} (hword : word ∈ affix :: stops)
        (hrest : isBoundary rest.head? = true)
        (hmeet : isBoundary (word ++ rest).getLast? = true ∨ isBoundary after.head? = true) :
        isBoundary (rest ++ after).head? = true := by
      obtain ⟨hne, hall⟩ := hwords word hword
      cases rest with
      | cons c rest => exact hrest
      | nil =>
          rcases hmeet with hmeet | hmeet
          · rw [List.append_nil] at hmeet
            exact absurd (eq_nil_of_isBoundary_getLast? hall hmeet) hne
          · exact hmeet
    induction h with
    | nil => exact hafter
    | @blank c rest hc _ ih =>
        apply Ends.blank hc (ih _)
        exact hmeet.imp (isBoundary_getLast?_of_append [c]) id
    | @affix rest hrest _ ih =>
        rw [List.append_assoc]
        apply Ends.affix (hhead List.mem_cons_self hrest hmeet) (ih _)
        exact hmeet.imp (isBoundary_getLast?_of_append _) id
    | @stop word rest hword hrest =>
        rw [List.append_assoc]
        exact .stop hword (hhead (List.mem_cons_of_mem affix hword) hrest hmeet)

/-- What stands in front makes no difference to the end of a text, if no word characters meet
there. -/
theorem Final.append {first : List Char} (h : Final affix stops text)
    (hfirst : isBoundary first.getLast? = true ∨ isBoundary text.head? = true) :
    Final affix stops (first ++ text) := by
  have hmeet {word front back : List Char} (hword : word ∈ affix :: stops)
      (heq : text = front ++ word ++ back) (hfront : isBoundary front.getLast? = true) :
      isBoundary (first ++ front).getLast? = true := by
    cases front using List.reverseRecOn with
    | append_singleton front c => simpa using hfront
    | nil =>
        rw [List.append_nil]
        apply hfirst.resolve_right
        intro hhead
        obtain ⟨hne, hall⟩ := hwords word hword
        rw [heq, List.nil_append] at hhead
        exact hne (eq_nil_of_isBoundary_head? hall hhead)
  cases h with
  | blank hblank =>
      apply Final.blank
      intro hfalse
      apply hblank
      intro c hc
      exact hfalse c (by simp [List.getLast?_append, Option.mem_def.mp hc])
  | affix front heq hfront =>
      apply Final.affix (first ++ front) (by simp [heq])
      exact hmeet List.mem_cons_self (by rw [heq, List.append_nil]) hfront
  | stop word front back hword heq hfront hback =>
      apply Final.stop word (first ++ front) back hword (by simp [heq]) _ hback
      exact hmeet (List.mem_cons_of_mem affix hword) heq hfront

/-- A text that ends and is not empty has a last blank or word. -/
theorem Ends.eq_nil_or_final (h : Ends affix stops text) : text = [] ∨ Final affix stops text := by
  induction h with
  | nil => exact Or.inl rfl
  | @blank c rest hc _ ih =>
      right
      rcases ih with rfl | ih
      · exact .blank fun hfalse => by simp [hfalse c rfl] at hc
      · have hboundary : isBoundary [c].getLast? = true := isBoundary_of_isBlank hc
        exact ih.append hwords (Or.inl hboundary)
  | @affix rest hrest _ ih =>
      right
      rcases ih with rfl | ih
      · exact .affix [] (by simp) rfl
      · exact ih.append hwords (Or.inr hrest)
  | @stop word rest hword hrest => exact Or.inr (.stop word [] rest hword rfl rfl hrest)

end Ends

theorem isWord_of_mem_closers :
    ∀ word ∈ [arrayWord, orWord, andWord], word ≠ [] ∧ ∀ c ∈ word, isWord c = true := by
  have hplain : ∀ word ∈ [arrayWord, orWord, andWord],
      word ≠ [] ∧ ∀ c ∈ word, isPlain c = true := by
    simp [isPlain]
  intro word hword
  exact (hplain word hword).imp_right fun h c hc => isWord_of_isPlain (h c hc)

theorem isWord_of_mem_openers : ∀ word ∈ [notWord.reverse, orWord.reverse, andWord.reverse],
    word ≠ [] ∧ ∀ c ∈ word, isWord c = true := by
  have hplain : ∀ word ∈ [notWord.reverse, orWord.reverse, andWord.reverse],
      word ≠ [] ∧ ∀ c ∈ word, isPlain c = true := by
    simp [isPlain]
  intro word hword
  exact (hplain word hword).imp_right fun h c hc => isWord_of_isPlain (h c hc)

/-- Nothing but `array` stands behind, before the next `or`, `and` or end. -/
def Closes (after : List Char) : Prop :=
  Ends arrayWord [orWord, andWord] after

/-- Nothing but `not` stands before, since the last `or`, `and` or start. -/
def Opens (before : List Char) : Prop :=
  Ends notWord.reverse [orWord.reverse, andWord.reverse] before.reverse

section Cut

variable {before after text : List Char}

theorem closes_append_iff (hafter : Closes after)
    (hmeet : isBoundary before.getLast? = true ∨ isBoundary after.head? = true) :
    Closes (before ++ after) ↔ Closes before :=
  Ends.append_iff isWord_of_mem_closers hafter hmeet

theorem opens_append_iff (hbefore : Opens before)
    (hmeet : isBoundary before.getLast? = true ∨ isBoundary after.head? = true) :
    Opens (before ++ after) ↔ Opens after := by
  unfold Opens
  rw [List.reverse_append]
  apply Ends.append_iff isWord_of_mem_openers hbefore
  rw [List.getLast?_reverse, List.head?_reverse]
  exact hmeet.symm

theorem Ends.of_blanks {affix : List Char} {stops : List (List Char)}
    (h : ∀ c ∈ text, isBlank c = true) : Ends affix stops text := by
  induction text with
  | nil => exact .nil
  | cons c rest ih =>
      obtain ⟨hc, hrest⟩ := List.forall_mem_cons.mp h
      exact .blank hc (ih hrest)

/-- A text of one line without blanks at its end splits if it closes something. -/
theorem split?_ne_none_of_closes (hline : '\n' ∉ before ++ after)
    (hbefore : isBoundary before.getLast? = true) (hafter : Closes after)
    (hne : after ≠ []) (hblank : NoTrailingBlank (before ++ after)) :
    split? (before ++ after) ≠ none := by
  intro hnone
  obtain ⟨hor, hand, harray, _⟩ := of_split?_eq_none hline hnone
  have hfinal := (Ends.eq_nil_or_final isWord_of_mem_closers hafter).resolve_left hne
  cases hfinal.append isWord_of_mem_closers (Or.inl hbefore) with
  | blank h => exact h hblank
  | affix front heq hfront =>
      rw [(beforeFinal?_eq_some_iff _ _ _).mpr ⟨heq, hfront⟩] at harray
      cases harray
  | stop word front back hword heq hfront hback =>
      have hcut : cutAtWord? word none (before ++ after) ≠ none := by
        rw [heq]
        apply cutAtWord?_ne_none _ (by simpa using hfront) hback
        exact (isWord_of_mem_closers word (List.mem_cons_of_mem _ hword)).1
      simp only [List.mem_cons, List.not_mem_nil, or_false] at hword
      rcases hword with rfl | rfl
      · exact hcut hor
      · exact hcut hand

/-- A text of one line without blanks at its start splits if it opens something. -/
theorem split?_ne_none_of_opens (hline : '\n' ∉ before ++ after)
    (hafter : isBoundary after.head? = true) (hbefore : Opens before) (hne : before ≠ [])
    (hblank : NoLeadingBlank (before ++ after)) : split? (before ++ after) ≠ none := by
  intro hnone
  obtain ⟨hor, hand, _, hnot⟩ := of_split?_eq_none hline hnone
  have hfinal := (Ends.eq_nil_or_final isWord_of_mem_openers hbefore).resolve_left
    (by simpa using hne)
  have hmeet : isBoundary after.reverse.getLast? = true := by rwa [List.getLast?_reverse]
  have htext := hfinal.append isWord_of_mem_openers (Or.inl hmeet)
  rw [← List.reverse_append] at htext
  cases htext with
  | blank h =>
      apply h
      intro c hc
      rw [List.getLast?_reverse] at hc
      exact hblank c hc
  | affix front heq hfront =>
      have hsome : afterInitial? notWord (before ++ after) = some front.reverse := by
        apply (afterInitial?_eq_some_iff _ _ _).mpr
        rw [List.head?_reverse]
        exact ⟨by simpa using congrArg List.reverse heq, hfront⟩
      rw [hsome] at hnot
      cases hnot
  | stop word front back hword heq hfront hback =>
      have hcut : cutAtWord? word.reverse none (before ++ after) ≠ none := by
        have heq : before ++ after = back.reverse ++ word.reverse ++ front.reverse := by
          simpa using congrArg List.reverse heq
        rw [heq]
        apply cutAtWord?_ne_none
        · simpa using (isWord_of_mem_openers word (List.mem_cons_of_mem _ hword)).1
        · simpa using hback
        · simpa using hfront
      simp only [List.mem_cons, List.not_mem_nil, or_false] at hword
      rcases hword with rfl | rfl
      · exact hcut hor
      · exact hcut hand

end Cut

end Switchboard.Parser
