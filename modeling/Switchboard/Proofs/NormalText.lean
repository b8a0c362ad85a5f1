import Switchboard.Proofs.Passes

/-!
What a normal spelling looks like. It has no operator signs and no blanks but single spaces,
each of them between two characters of one class. Nothing else is asked of it: the texts that
look like this are the texts the normal spelling leaves alone.
-/

namespace Switchboard.Spelling

open Text

/-- A text without an operator that is written with signs, whose blanks are single spaces, none
at an edge and none between a word character and another one. -/
structure IsNormal (text : List Char) : Prop where
  noBang : '!' ∉ text
  noBars : ¬ ['|', '|'] <:+: text
  noAmpersands : ¬ ['&', '&'] <:+: text
  noBrackets : ¬ ['[', ']'] <:+: text
  trimmed : Trimmed text
  spaces : ∀ c ∈ text, isBlank c = true → c = ' '
  single : ¬ [' ', ' '] <:+: text
  even : ∀ a b, [a, ' ', b] <:+: text → isPlain a = isPlain b

/-! Signs -/

theorem signFree_iff (text : List Char) :
    SignFree text ↔ '!' ∉ text ∧ ¬ ['|', '|'] <:+: text ∧ ¬ ['&', '&'] <:+: text ∧
      ¬ ['[', ']'] <:+: text := by
  constructor
  · intro h
    have hpair {a b : Char} (hclash : Clash a b) : ¬ [a, b] <:+: text := by
      intro hpart
      have hchain := (h.of_isInfix hpart).2
      rw [List.isChain_pair] at hchain
      exact hchain hclash
    exact ⟨h.1, hpair (Or.inl ⟨rfl, rfl⟩), hpair (Or.inr (Or.inl ⟨rfl, rfl⟩)),
      hpair (Or.inr (Or.inr ⟨rfl, rfl⟩))⟩
  · rintro ⟨hbang, hbars, hampersands, hbrackets⟩
    refine ⟨hbang, (List.isChain_isInfix text).imp ?_⟩
    rintro a b hpart (⟨rfl, rfl⟩ | ⟨rfl, rfl⟩ | ⟨rfl, rfl⟩)
    · exact hbars hpart
    · exact hampersands hpart
    · exact hbrackets hpart

/-! Blanks -/

/-- A text in which every blank is one space, before another character and between two of one
class. -/
structure Spaced (text : List Char) : Prop where
  noTrailingBlank : NoTrailingBlank text
  spaces : ∀ c ∈ text, isBlank c = true → c = ' '
  single : ¬ [' ', ' '] <:+: text
  even : ∀ a b, [a, ' ', b] <:+: text → isPlain a = isPlain b

theorem Spaced.of_cons {c : Char} {text : List Char} (h : Spaced (c :: text)) : Spaced text where
  noTrailingBlank := h.noTrailingBlank.of_cons
  spaces d hd := h.spaces d (List.mem_cons_of_mem c hd)
  single hpart := h.single (List.infix_cons hpart)
  even a b hpart := h.even a b (List.infix_cons hpart)

theorem spaced_singleton {c : Char} (h : isBlank c = false) : Spaced [c] where
  noTrailingBlank := by simpa [NoTrailingBlank] using h
  spaces := by simp [h]
  single hpart := by simpa using hpart.length_le
  even a b hpart := by simpa using hpart.length_le

theorem Spaced.cons {c d : Char} {text : List Char} (hc : isBlank c = false)
    (hd : isBlank d = false) (h : Spaced (d :: text)) : Spaced (c :: d :: text) where
  noTrailingBlank := by
    intro x hx
    rw [List.getLast?_cons_cons] at hx
    exact h.noTrailingBlank x hx
  spaces := by
    rintro x (_ | ⟨_, hx⟩) hblank
    · rw [hc] at hblank
      cases hblank
    · exact h.spaces x hx hblank
  single := by
    rw [List.infix_cons_iff, not_or]
    refine ⟨fun hstart => ?_, h.single⟩
    rw [List.cons_prefix_cons] at hstart
    rw [← hstart.1] at hc
    exact absurd hc (by decide)
  even := by
    intro a b hpart
    rcases List.infix_cons_iff.mp hpart with hstart | hpart
    · rw [List.cons_prefix_cons, List.cons_prefix_cons] at hstart
      rw [← hstart.2.1] at hd
      exact absurd hd (by decide)
    · exact h.even a b hpart

theorem Spaced.cons_space {c d : Char} {text : List Char} (hc : isBlank c = false)
    (hd : isBlank d = false) (hsame : isPlain c = isPlain d) (h : Spaced (d :: text)) :
    Spaced (c :: ' ' :: d :: text) where
  noTrailingBlank := by
    intro x hx
    rw [List.getLast?_cons_cons, List.getLast?_cons_cons] at hx
    exact h.noTrailingBlank x hx
  spaces := by
    rintro x (_ | ⟨_, _ | ⟨_, hx⟩⟩) hblank
    · rw [hc] at hblank
      cases hblank
    · rfl
    · exact h.spaces x hx hblank
  single := by
    rw [List.infix_cons_iff, List.infix_cons_iff, not_or, not_or]
    refine ⟨fun hstart => ?_, fun hstart => ?_, h.single⟩
    · rw [List.cons_prefix_cons] at hstart
      rw [← hstart.1] at hc
      exact absurd hc (by decide)
    · rw [List.cons_prefix_cons, List.cons_prefix_cons] at hstart
      rw [← hstart.2.1] at hd
      exact absurd hd (by decide)
  even := by
    intro a b hpart
    rcases List.infix_cons_iff.mp hpart with hstart | hpart
    · rw [List.cons_prefix_cons, List.cons_prefix_cons, List.cons_prefix_cons] at hstart
      rw [hstart.1, hstart.2.2.1, hsame]
    · rcases List.infix_cons_iff.mp hpart with hstart | hpart
      · rw [List.cons_prefix_cons, List.cons_prefix_cons] at hstart
        rw [← hstart.2.1] at hd
        exact absurd hd (by decide)
      · exact h.even a b hpart

/-- A weighed text is spaced, behind the character before it. -/
theorem spaced_weighAfter {last : Char} (hlast : isBlank last = false) (gap : Bool)
    (text : List Char) : Spaced (last :: weighAfter last gap text) := by
  induction text generalizing last gap with
  | nil => exact spaced_singleton hlast
  | cons c rest ih =>
      by_cases hc : isBlank c = true
      · rw [weighAfter_blank hc]
        exact ih hlast true
      · rw [Bool.not_eq_true] at hc
        have hrest := ih hc false
        rw [weighAfter, if_neg (by simp [hc])]
        split
        · next hgap =>
            rw [Bool.and_eq_true, beq_iff_eq] at hgap
            exact hrest.cons_space hlast hc hgap.2
        · exact hrest.cons hlast hc

/-- Weighing leaves a spaced text alone. -/
theorem weighAfter_of_spaced (last : Char) :
    (text : List Char) → Spaced (last :: text) → weighAfter last false text = text
  | [], _ => rfl
  | c :: rest, h => by
      by_cases hc : isBlank c = true
      · -- the blank is a space, and what it stands before cannot be another one
        obtain rfl : c = ' ' := h.spaces c (by simp) hc
        cases rest with
        | nil =>
            have hend := h.noTrailingBlank ' ' rfl
            rw [hc] at hend
            cases hend
        | cons d more =>
            have hd : isBlank d = false := by
              rw [Bool.eq_false_iff]
              intro hblank
              obtain rfl : d = ' ' := h.spaces d (by simp) hblank
              exact h.single (List.infix_cons (List.prefix_append [' ', ' '] more).isInfix)
            have hsame : isPlain last = isPlain d :=
              h.even last d (List.prefix_append [last, ' ', d] more).isInfix
            rw [weighAfter_blank hc, weighAfter, if_neg (by simp [hd]), if_pos (by simp [hsame]),
              weighAfter_of_spaced d more h.of_cons.of_cons]
      · rw [Bool.not_eq_true] at hc
        rw [weighAfter_cons_of_not_isBlank hc, weighAfter_of_spaced c rest h.of_cons]
        simp [weighAfter, hc]

theorem spaced_weigh (text : List Char) : Spaced (weigh text) := by
  induction text with
  | nil => exact ⟨by simp [weigh, trimStart, NoTrailingBlank], by simp [weigh, trimStart],
      by simp [weigh, trimStart], by simp [weigh, trimStart]⟩
  | cons c rest ih =>
      by_cases hc : isBlank c = true
      · rwa [weigh_cons_of_isBlank hc]
      · rw [Bool.not_eq_true] at hc
        rw [weigh_cons_of_not_isBlank hc]
        exact spaced_weighAfter hc false rest

theorem weigh_of_spaced {text : List Char} (hstart : NoLeadingBlank text) (h : Spaced text) :
    weigh text = text := by
  cases text with
  | nil => rfl
  | cons c rest =>
      have hc : isBlank c = false := hstart c rfl
      rw [weigh_cons_of_not_isBlank hc, weighAfter_of_spaced c rest h]

/-! Normal texts -/

theorem isNormal_normalChars (source : List Char) : IsNormal (normalChars source) := by
  obtain ⟨hbang, hbars, hampersands, hbrackets⟩ :=
    (signFree_iff _).mp (signFree_normalChars source)
  have hspaced : Spaced (normalChars source) := spaced_weigh (spellOut source)
  exact
    { noBang := hbang
      noBars := hbars
      noAmpersands := hampersands
      noBrackets := hbrackets
      trimmed := trimmed_normalChars source
      spaces := hspaced.spaces
      single := hspaced.single
      even := hspaced.even }

/-- A text is normal just when it is its own normal spelling. -/
theorem isNormal_iff (text : List Char) : IsNormal text ↔ normalChars text = text := by
  constructor
  · intro h
    have hsigns : SignFree text :=
      (signFree_iff text).mpr ⟨h.noBang, h.noBars, h.noAmpersands, h.noBrackets⟩
    have hspaced : Spaced text := ⟨h.trimmed.2, h.spaces, h.single, h.even⟩
    rw [normalChars, spellOut_of_signFree hsigns, weigh_of_spaced h.trimmed.1 hspaced]
  · intro h
    rw [← h]
    exact isNormal_normalChars text

/-- The normal spelling of a text is what the passes make of it. It is normal, and it is its own
normal spelling, as any normal text is. -/
theorem normalize_isNormal (source : String) :
    (normalize source).toList = passes source.toList ∧
      IsNormal (normalize source).toList ∧
      normalize (normalize source) = normalize source ∧
      (IsNormal source.toList ↔ normalize source = source) := by
  refine ⟨?_, ?_, normalize_normalize source, ?_⟩
  · rw [toList_normalize, passes_eq]
  · rw [toList_normalize]
    exact isNormal_normalChars source.toList
  · rw [isNormal_iff, ← toList_normalize, String.toList_inj]

end Switchboard.Spelling
