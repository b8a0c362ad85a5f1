import Switchboard.Proofs.Grouping

/-!
Where the placeholders of a text stand. The texts that are read when groups are taken out are
tagged: their marks stand in placeholders only, each of a group that has been taken out. A
placeholder has marks and digits in it and nothing else, so wherever such a text is cut at a
keyword, a blank or a parenthesis, each of its placeholders is on one side of the cut as a
whole, and both sides are tagged again.
-/

namespace Switchboard

open Text

namespace Groups

/-- A text without the marks of placeholders. -/
def Unmarked (text : List Char) : Prop :=
  openMark ∉ text ∧ closeMark ∉ text

instance : DecidablePred Unmarked :=
  fun text => inferInstanceAs (Decidable (openMark ∉ text ∧ closeMark ∉ text))

/-- A text in which marks stand in placeholders only, all of groups below this number. -/
inductive Tagged (count : Nat) : List Char → Prop
  | nil : Tagged count []
  | char {c : Char} {rest : List Char} (hopen : c ≠ openMark) (hclose : c ≠ closeMark)
      (h : Tagged count rest) : Tagged count (c :: rest)
  | placeholder {index : Nat} {rest : List Char} (hindex : index < count)
      (h : Tagged count rest) : Tagged count (placeholder index ++ rest)

/-- A character that is in no placeholder. -/
def Foreign (c : Char) : Prop :=
  ∀ index, c ∉ placeholder index

theorem foreign_of {c : Char} (hopen : c ≠ openMark) (hclose : c ≠ closeMark)
    (hdigit : c.isDigit = false) : Foreign c := by
  intro index hc
  rcases of_mem_placeholder hc with rfl | rfl | hc
  · exact hopen rfl
  · exact hclose rfl
  · simp [hc] at hdigit

theorem foreign_of_isBlank {c : Char} (hc : isBlank c = true) : Foreign c := by
  apply foreign_of
  · rintro rfl
    exact absurd hc (by decide)
  · rintro rfl
    exact absurd hc (by decide)
  · have hplain := isPlain_eq_false_of_isBlank hc
    simp only [isPlain, Char.isAlphanum, Bool.or_eq_false_iff] at hplain
    exact hplain.1.2

theorem foreign_of_mem_keyword (operator : Operator) {c : Char} (hc : c ∈ operator.keyword) :
    Foreign c := by
  have hletter : c.isAlpha = true :=
    List.all_eq_true.mp (by cases operator <;> rfl) c hc
  apply foreign_of
  · rintro rfl
    exact absurd hletter (by decide)
  · rintro rfl
    exact absurd hletter (by decide)
  · exact isDigit_eq_false_of_isAlpha hletter

/-- A text that starts with a placeholder starts with no other one. -/
theorem placeholder_append_inj {index other : Nat} {rest rest' : List Char}
    (h : placeholder index ++ rest = placeholder other ++ rest') :
    index = other ∧ rest = rest' := by
  simp only [placeholder, List.cons_append, List.append_assoc, List.cons.injEq, true_and,
    List.nil_append] at h
  have hdigit (number : Nat) : ∀ c ∈ Nat.toDigits 10 number, c.isDigit = true :=
    fun c hc => Nat.isDigit_of_mem_toDigits (by decide) (by decide) hc
  have hmark : closeMark.isDigit = false := by decide
  have hdigits : Nat.toDigits 10 index = Nat.toDigits 10 other := by
    have htake := congrArg (List.takeWhile Char.isDigit) h
    rw [List.takeWhile_append_of_pos (hdigit index),
      List.takeWhile_append_of_pos (hdigit other)] at htake
    simpa [List.takeWhile_cons, hmark] using htake
  rw [hdigits, List.append_cancel_left_eq, List.cons.injEq] at h
  have hindex := readIndex?_toDigits index
  rw [hdigits, readIndex?_toDigits] at hindex
  exact ⟨(Option.some.inj hindex).symm, h.2⟩

/-- The placeholders behind a first one start behind it. -/
theorem cut_first {index first : Nat} {before after rest : List Char}
    (h : placeholder first ++ rest = before ++ (placeholder index ++ after)) :
    (before = [] ∧ first = index ∧ rest = after) ∨
      ∃ middle, before = placeholder first ++ middle ∧
        rest = middle ++ (placeholder index ++ after) := by
  cases before with
  | nil => exact Or.inl ⟨rfl, placeholder_append_inj h⟩
  | cons c before =>
      right
      obtain ⟨rfl, htail⟩ : openMark = c ∧
          Nat.toDigits 10 first ++ [closeMark] ++ rest = before ++ (placeholder index ++ after) :=
        List.cons.inj h
      rcases List.append_eq_append_iff.mp htail with
        ⟨middle, rfl, hrest⟩ | ⟨middle, hmiddle, hrest⟩
      · exact ⟨middle, by simp [placeholder], hrest⟩
      · cases middle with
        | nil =>
            rw [List.append_nil] at hmiddle
            exact ⟨[], by simp [placeholder, hmiddle], by simpa using hrest.symm⟩
        | cons d middle =>
            -- the second placeholder would open among the digits of the first
            obtain ⟨rfl, _⟩ : openMark = d ∧ _ := List.cons.inj hrest
            have hmem : openMark ∈ Nat.toDigits 10 first ++ [closeMark] := by simp [hmiddle]
            rcases List.mem_append.mp hmem with hmem | hmem
            · have hdigit := Nat.isDigit_of_mem_toDigits (by decide) (by decide) hmem
              exact absurd hdigit (by decide)
            · exact absurd hmem (by decide)

/-- The placeholders of a text stand on one side of what is in no placeholder. -/
theorem cut_word {before after front word back : List Char} {index : Nat}
    (hne : word ≠ []) (hword : ∀ c ∈ word, Foreign c)
    (h : front ++ (word ++ back) = before ++ (placeholder index ++ after)) :
    (∃ rest, front = before ++ (placeholder index ++ rest) ∧ after = rest ++ (word ++ back)) ∨
      ∃ rest, back = rest ++ (placeholder index ++ after) ∧ before = front ++ (word ++ rest) := by
  obtain ⟨w, ws, rfl⟩ := List.exists_cons_of_ne_nil hne
  rcases List.append_eq_append_iff.mp h with ⟨middle, rfl, hmiddle⟩ | ⟨middle, rfl, hmiddle⟩
  · rcases List.append_eq_append_iff.mp hmiddle with ⟨rest, rfl, hrest⟩ | ⟨rest, hrest, hafter⟩
    · exact Or.inr ⟨rest, hrest, rfl⟩
    · cases rest with
      | nil => exact Or.inr ⟨[], by simpa using hafter.symm, by simp [hrest]⟩
      | cons c rest =>
          obtain ⟨rfl, _⟩ : openMark = c ∧ _ := List.cons.inj hafter
          exact absurd List.mem_cons_self (hword openMark (by simp [hrest]) index)
  · rcases List.append_eq_append_iff.mp hmiddle with ⟨rest, rfl, hrest⟩ | ⟨rest, hrest, hback⟩
    · exact Or.inl ⟨rest, rfl, hrest⟩
    · cases rest with
      | nil => exact Or.inl ⟨[], by simp [hrest], by simpa using hback.symm⟩
      | cons c rest =>
          obtain ⟨rfl, _⟩ := List.cons.inj hback
          exact absurd (by simp [hrest]) (hword w List.mem_cons_self index)

/-- A text speaks of a group if its placeholder stands in it. -/
def Mentions (text : List Char) (index : Nat) : Prop :=
  ∃ before after, text = before ++ (placeholder index ++ after)

theorem mentions_cut_iff {front word back : List Char} {index : Nat} (hne : word ≠ [])
    (hword : ∀ c ∈ word, Foreign c) :
    Mentions (front ++ (word ++ back)) index ↔ Mentions front index ∨ Mentions back index := by
  constructor
  · rintro ⟨before, after, heq⟩
    rcases cut_word hne hword heq with ⟨rest, hfront, _⟩ | ⟨rest, hback, _⟩
    · exact Or.inl ⟨before, rest, hfront⟩
    · exact Or.inr ⟨rest, after, hback⟩
  · rintro (⟨before, after, rfl⟩ | ⟨before, after, rfl⟩)
    · exact ⟨before, after ++ (word ++ back), by simp⟩
    · exact ⟨front ++ (word ++ before), after, by simp⟩

theorem not_mentions_nil (index : Nat) : ¬ Mentions [] index := by
  rintro ⟨before, after, heq⟩
  simp [placeholder] at heq

theorem mentions_placeholder_iff {index other : Nat} :
    Mentions (placeholder index) other ↔ index = other := by
  constructor
  · rintro ⟨before, after, heq⟩
    rw [← List.append_nil (placeholder index)] at heq
    rcases cut_first heq with ⟨_, hindex, _⟩ | ⟨middle, _, hnil⟩
    · exact hindex
    · simp [placeholder] at hnil
  · rintro rfl
    exact ⟨[], [], by simp⟩

theorem Unmarked.not_mentions {text : List Char} (h : Unmarked text) (index : Nat) :
    ¬ Mentions text index := by
  rintro ⟨before, after, rfl⟩
  exact h.1 (by simp [placeholder])

namespace Tagged

variable {count : Nat} {before after text : List Char}

theorem of_unmarked (h : Unmarked text) : Tagged count text := by
  induction text with
  | nil => exact .nil
  | cons c rest ih =>
      simp only [Unmarked, List.mem_cons, not_or] at h
      exact .char (Ne.symm h.1.1) (Ne.symm h.2.1) (ih ⟨h.1.2, h.2.2⟩)

theorem mono (h : Tagged count text) {more : Nat} (hle : count ≤ more) : Tagged more text := by
  induction h with
  | nil => exact .nil
  | char hopen hclose _ ih => exact .char hopen hclose ih
  | placeholder hindex _ ih => exact .placeholder (Nat.lt_of_lt_of_le hindex hle) ih

theorem append (hbefore : Tagged count before) (hafter : Tagged count after) :
    Tagged count (before ++ after) := by
  induction hbefore with
  | nil => exact hafter
  | char hopen hclose _ ih => exact .char hopen hclose ih
  | placeholder hindex _ ih =>
      rw [List.append_assoc]
      exact .placeholder hindex ih

/-- A text is tagged on both sides of a character that is in no placeholder. -/
theorem of_append_cons {c : Char} (hc : Foreign c) (h : Tagged count (before ++ c :: after)) :
    Tagged count before ∧ Tagged count after := by
  generalize htext : before ++ c :: after = text at h
  induction h generalizing before with
  | nil => simp at htext
  | @char d rest hopen hclose h ih =>
      cases before with
      | nil =>
          obtain ⟨rfl, rfl⟩ := List.cons.inj htext
          exact ⟨.nil, h⟩
      | cons e before =>
          obtain ⟨rfl, rfl⟩ := List.cons.inj htext
          obtain ⟨hbefore, hafter⟩ := ih rfl
          exact ⟨.char hopen hclose hbefore, hafter⟩
  | @placeholder index rest hindex _ ih =>
      have hcut : before ++ ([c] ++ after) = [] ++ (Groups.placeholder index ++ rest) := htext
      rcases cut_word (by simp) (by simpa using hc) hcut with
        ⟨middle, rfl, rfl⟩ | ⟨middle, _, hnil⟩
      · obtain ⟨hbefore, hafter⟩ := ih rfl
        exact ⟨.placeholder hindex hbefore, hafter⟩
      · simp at hnil

theorem of_foreign_append (hbefore : ∀ c ∈ before, Foreign c)
    (h : Tagged count (before ++ after)) : Tagged count after := by
  induction before with
  | nil => exact h
  | cons c before ih =>
      obtain ⟨hc, hbefore⟩ := List.forall_mem_cons.mp hbefore
      have htail : Tagged count ([] ++ c :: (before ++ after)) := h
      exact ih hbefore (htail.of_append_cons hc).2

theorem of_append_foreign (hafter : ∀ c ∈ after, Foreign c)
    (h : Tagged count (before ++ after)) : Tagged count before := by
  cases after with
  | nil => rwa [List.append_nil] at h
  | cons c after => exact (h.of_append_cons (hafter c List.mem_cons_self)).1

theorem trim (h : Tagged count text) : Tagged count (trim text) := by
  obtain ⟨front, back, hfront, hback, heq⟩ := exists_blanks_trim text
  rw [heq, List.append_assoc] at h
  apply of_append_foreign fun c hc => foreign_of_isBlank (hback c hc)
  exact h.of_foreign_append fun c hc => foreign_of_isBlank (hfront c hc)

/-- A tagged text speaks of groups below the number only. -/
theorem lt (h : Tagged count text) {index : Nat} (hmention : Mentions text index) :
    index < count := by
  obtain ⟨before, after, heq⟩ := hmention
  induction h generalizing before with
  | nil => simp [Groups.placeholder] at heq
  | @char c rest hopen _ _ ih =>
      cases before with
      | nil =>
          obtain ⟨rfl, _⟩ : c = openMark ∧ _ := List.cons.inj heq
          exact absurd rfl hopen
      | cons d before => exact ih before (List.cons.inj heq).2
  | @placeholder first rest hfirst _ ih =>
      rcases cut_first heq with ⟨_, rfl, _⟩ | ⟨middle, _, hrest⟩
      · exact hfirst
      · exact ih middle hrest

/-- A tagged text with marks speaks of a group. -/
theorem exists_mentions (h : Tagged count text) (hmarked : ¬ Unmarked text) :
    ∃ index, Mentions text index := by
  induction h with
  | nil => simp [Unmarked] at hmarked
  | @char c rest hopen hclose _ ih =>
      have hrest : ¬ Unmarked rest := by
        intro hrest
        apply hmarked
        simp [Unmarked, Ne.symm hopen, Ne.symm hclose, hrest.1, hrest.2]
      obtain ⟨index, before, after, rfl⟩ := ih hrest
      exact ⟨index, c :: before, after, rfl⟩
  | @placeholder index rest _ _ _ => exact ⟨index, [], rest, rfl⟩

/-- A tagged text that stands for a group is a placeholder. -/
theorem exists_of_find? (h : Tagged count text) {groups : List Expr} {tree : Expr}
    (hfind : find? groups text = some tree) :
    ∃ index, text = Groups.placeholder index ∧ groups[index]? = some tree := by
  obtain ⟨init, htext, hinit⟩ := exists_init_of_find? hfind
  have hclose : closeMark ∉ init := fun hmem => absurd (hinit closeMark hmem) (by decide)
  cases h with
  | nil => cases htext
  | char hopen => exact absurd (List.cons.inj htext).1 hopen
  | @placeholder index rest _ _ =>
      have htail : Nat.toDigits 10 index ++ [closeMark] ++ rest = init ++ [closeMark] :=
        (List.cons.inj htext).2
      -- the first closing mark is the last character
      have hrest : rest = [] := by
        cases rest using List.reverseRecOn with
        | nil => rfl
        | append_singleton rest c =>
            rw [← List.append_assoc] at htail
            have hsame := (List.append_inj' htail rfl).1
            exact absurd (by simp [← hsame]) hclose
      subst hrest
      rw [List.append_nil] at hfind ⊢
      rw [find?_placeholder] at hfind
      exact ⟨index, rfl, hfind⟩

end Tagged

end Groups

end Switchboard
