import Mathlib
import Switchboard.Text.Blank
import Switchboard.Text.Word

/-!
What the character classes have to do with each other, and how trimming treats a
text that is put together from parts. A plain character is a word character, and a
blank is neither. Trimming is decided at the two ends of a text, so a part that has
a character other than a blank shields the parts behind it.
-/

namespace Switchboard.Text

theorem isPlain_iff (c : Char) :
    isPlain c = true ↔ (48 ≤ c.toNat ∧ c.toNat ≤ 57) ∨ (65 ≤ c.toNat ∧ c.toNat ≤ 90) ∨
      c.toNat = 95 ∨ (97 ≤ c.toNat ∧ c.toNat ≤ 122) := by
  have hunderscore : c = '_' ↔ c.toNat = 95 :=
    ⟨fun h => by rw [h]; rfl, fun h => Char.toNat_inj.mp h⟩
  simp only [isPlain, Char.isAlphanum, Char.isAlpha, Char.isUpper, Char.isLower, Char.isDigit,
    Bool.or_eq_true, Bool.and_eq_true, decide_eq_true_eq, beq_iff_eq, ge_iff_le,
    UInt32.le_iff_toNat_le, hunderscore]
  change ((((65 ≤ c.toNat ∧ c.toNat ≤ 90) ∨ (97 ≤ c.toNat ∧ c.toNat ≤ 122)) ∨
    (48 ≤ c.toNat ∧ c.toNat ≤ 57)) ∨ c.toNat = 95) ↔ _
  omega

theorem isBlank_iff (c : Char) :
    isBlank c = true ↔ c.toNat = 0x20 ∨ (0x9 ≤ c.toNat ∧ c.toNat ≤ 0xD) ∨ c.toNat = 0x85 ∨
      c.toNat = 0xA0 ∨ c.toNat = 0x1680 ∨ (0x2000 ≤ c.toNat ∧ c.toNat ≤ 0x200A) ∨
      c.toNat = 0x2028 ∨ c.toNat = 0x2029 ∨ c.toNat = 0x202F ∨ c.toNat = 0x205F ∨
      c.toNat = 0x3000 := by
  simp only [isBlank, Bool.or_eq_true, Bool.and_eq_true, decide_eq_true_eq, beq_iff_eq]
  omega

theorem isBlank_eq_false_of_isPlain {c : Char} (h : isPlain c = true) : isBlank c = false := by
  rw [Bool.eq_false_iff]
  intro hblank
  rw [isPlain_iff] at h
  rw [isBlank_iff] at hblank
  omega

theorem isPlain_eq_false_of_isBlank {c : Char} (h : isBlank c = true) : isPlain c = false := by
  rw [Bool.eq_false_iff]
  intro hplain
  rw [isBlank_eq_false_of_isPlain hplain] at h
  cases h

theorem isWord_of_isPlain {c : Char} (h : isPlain c = true) : isWord c = true := by
  have hsmall : c.toNat < 0x80 := by
    rw [isPlain_iff] at h
    omega
  simp [isWord, hsmall, h]

/-- The code points of the blanks above ASCII, in ranges. -/
def blankRanges : List (Nat × Nat) :=
  [(0x85, 0x85), (0xA0, 0xA0), (0x1680, 0x1680), (0x2000, 0x200A), (0x2028, 0x2029),
    (0x202F, 0x202F), (0x205F, 0x205F), (0x3000, 0x3000)]

theorem isWord_eq_false_of_isBlank {c : Char} (h : isBlank c = true) : isWord c = false := by
  have hapart : (wordRanges.all fun range => blankRanges.all fun blank =>
      Nat.blt range.2 blank.1 || Nat.blt blank.2 range.1) = true := by decide +kernel
  rw [isWord]
  split
  · exact isPlain_eq_false_of_isBlank h
  · have hblank : ∃ blank ∈ blankRanges, blank.1 ≤ c.toNat ∧ c.toNat ≤ blank.2 := by
      rw [isBlank_iff] at h
      simp only [blankRanges, List.exists_mem_cons_iff]
      omega
    obtain ⟨blank, hmem, hfirst, hlast⟩ := hblank
    rw [Bool.eq_false_iff]
    intro hword
    obtain ⟨range, hrange, hin⟩ := List.any_eq_true.mp hword
    have hout := List.all_eq_true.mp (List.all_eq_true.mp hapart range hrange) blank hmem
    rw [Bool.or_eq_true, Nat.blt_eq, Nat.blt_eq] at hout
    rw [Bool.and_eq_true, decide_eq_true_eq, decide_eq_true_eq] at hin
    omega

theorem isBlank_eq_false_of_isWord {c : Char} (h : isWord c = true) : isBlank c = false := by
  rw [Bool.eq_false_iff]
  intro hblank
  rw [isWord_eq_false_of_isBlank hblank] at h
  cases h

/-- A text that starts with a character other than a blank, or has none. -/
def NoLeadingBlank (text : List Char) : Prop :=
  ∀ c ∈ text.head?, isBlank c = false

/-- A text that ends with a character other than a blank, or has none. -/
def NoTrailingBlank (text : List Char) : Prop :=
  ∀ c ∈ text.getLast?, isBlank c = false

theorem NoTrailingBlank.of_cons {c : Char} {text : List Char} (h : NoTrailingBlank (c :: text)) :
    NoTrailingBlank text := by
  intro x hx
  apply h x
  rw [List.getLast?_cons, hx]
  rfl

theorem exists_of_not_noLeadingBlank {text : List Char} (h : ¬ NoLeadingBlank text) :
    ∃ c rest, isBlank c = true ∧ text = c :: rest := by
  cases text with
  | nil => exact absurd (by simp [NoLeadingBlank]) h
  | cons c rest =>
      refine ⟨c, rest, ?_, rfl⟩
      simpa [NoLeadingBlank] using h

theorem exists_of_not_noTrailingBlank {text : List Char} (h : ¬ NoTrailingBlank text) :
    ∃ init c, isBlank c = true ∧ text = init ++ [c] := by
  rcases List.eq_nil_or_concat text with rfl | ⟨init, c, rfl⟩
  · exact absurd (by simp [NoTrailingBlank]) h
  · refine ⟨init, c, ?_, by simp⟩
    simpa [NoTrailingBlank] using h

theorem trimEnd_eq_reverse (text : List Char) :
    trimEnd text = (trimStart text.reverse).reverse := rfl

theorem trimStart_cons_of_isBlank {c : Char} (h : isBlank c = true) (text : List Char) :
    trimStart (c :: text) = trimStart text :=
  List.dropWhile_cons_of_pos h

theorem trimStart_of_noLeadingBlank {text : List Char} (h : NoLeadingBlank text) :
    trimStart text = text := by
  cases text with
  | nil => rfl
  | cons c rest => exact List.dropWhile_cons_of_neg (by simp [h c rfl])

theorem noLeadingBlank_trimStart (text : List Char) : NoLeadingBlank (trimStart text) := by
  induction text with
  | nil => simp [NoLeadingBlank, trimStart]
  | cons c rest ih =>
      by_cases hc : isBlank c = true
      · rwa [trimStart_cons_of_isBlank hc]
      · rw [trimStart_of_noLeadingBlank (by simpa [NoLeadingBlank] using hc)]
        simpa [NoLeadingBlank] using hc

/-- What stands before a character other than a blank is trimmed on its own. -/
theorem trimStart_append {after : List Char} (before : List Char)
    (h : NoLeadingBlank after) : trimStart (before ++ after) = trimStart before ++ after := by
  induction before with
  | nil => simpa [trimStart] using trimStart_of_noLeadingBlank h
  | cons c rest ih =>
      by_cases hc : isBlank c = true
      · simpa only [List.cons_append, trimStart_cons_of_isBlank hc] using ih
      · have hself (text : List Char) : trimStart (c :: text) = c :: text :=
          trimStart_of_noLeadingBlank (by simpa [NoLeadingBlank] using hc)
        rw [List.cons_append, hself, hself, List.cons_append]

theorem trimEnd_append {before : List Char} (after : List Char)
    (h : NoTrailingBlank before) : trimEnd (before ++ after) = before ++ trimEnd after := by
  have hrev : NoLeadingBlank before.reverse := by
    intro c hc
    exact h c (by rwa [List.head?_reverse] at hc)
  rw [trimEnd_eq_reverse, List.reverse_append, trimStart_append _ hrev]
  simp [trimEnd_eq_reverse]

theorem trimEnd_concat_of_isBlank {c : Char} (h : isBlank c = true) (text : List Char) :
    trimEnd (text ++ [c]) = trimEnd text := by
  rw [trimEnd_eq_reverse, List.reverse_append, List.reverse_singleton, List.singleton_append,
    trimStart_cons_of_isBlank h, trimEnd_eq_reverse]

theorem trimEnd_of_noTrailingBlank {text : List Char} (h : NoTrailingBlank text) :
    trimEnd text = text := by
  have hrev : NoLeadingBlank text.reverse := by
    intro c hc
    exact h c (by rwa [List.head?_reverse] at hc)
  rw [trimEnd_eq_reverse, trimStart_of_noLeadingBlank hrev, List.reverse_reverse]

theorem noTrailingBlank_trimEnd (text : List Char) : NoTrailingBlank (trimEnd text) := by
  intro c hc
  rw [trimEnd_eq_reverse, List.getLast?_reverse] at hc
  exact noLeadingBlank_trimStart _ c hc

/-- Trimming the end keeps the start of a text that has more than blanks. -/
theorem noLeadingBlank_trimEnd {text : List Char} (h : NoLeadingBlank text) :
    NoLeadingBlank (trimEnd text) := by
  intro c hc
  have hprefix : trimEnd text <+: text := by
    have hsuffix := List.reverse_prefix.mpr (List.dropWhile_suffix isBlank (l := text.reverse))
    rwa [List.reverse_reverse] at hsuffix
  obtain ⟨tail, htail⟩ := hprefix
  apply h c
  rw [← htail, List.head?_append]
  cases hhead : (trimEnd text).head? with
  | none => rw [hhead] at hc; cases hc
  | some d => simpa [hhead] using hc

/-- A text without blanks at its edges. -/
def Trimmed (text : List Char) : Prop :=
  NoLeadingBlank text ∧ NoTrailingBlank text

theorem trimmed_trim (text : List Char) : Trimmed (trim text) :=
  ⟨noLeadingBlank_trimEnd (noLeadingBlank_trimStart text), noTrailingBlank_trimEnd _⟩

theorem trim_of_trimmed {text : List Char} (h : Trimmed text) : trim text = text := by
  rw [trim, trimStart_of_noLeadingBlank h.1, trimEnd_of_noTrailingBlank h.2]

theorem trimmed_of_all_isWord {text : List Char} (h : ∀ c ∈ text, isWord c = true) :
    Trimmed text :=
  ⟨fun c hc => isBlank_eq_false_of_isWord (h c (List.mem_of_head? hc)),
    fun c hc => isBlank_eq_false_of_isWord (h c (List.mem_of_getLast? hc))⟩

theorem trim_trim (text : List Char) : trim (trim text) = trim text :=
  trim_of_trimmed (trimmed_trim text)

theorem trim_cons_of_isBlank {c : Char} (h : isBlank c = true) (text : List Char) :
    trim (c :: text) = trim text := by
  rw [trim, trimStart_cons_of_isBlank h, trim]

/-- A core with characters other than blanks at its ends shields what is inside it. -/
theorem trim_append_append {core : List Char} (before after : List Char) (hne : core ≠ [])
    (h : Trimmed core) : trim (before ++ core ++ after) = trimStart before ++ core ++ trimEnd after := by
  have hstart : trimStart (before ++ (core ++ after)) = trimStart before ++ (core ++ after) := by
    apply trimStart_append before
    intro c hc
    apply h.1 c
    cases core with
    | nil => exact absurd rfl hne
    | cons d rest => simpa using hc
  have hend : NoTrailingBlank (trimStart before ++ core) := by
    intro c hc
    apply h.2 c
    rw [List.getLast?_append] at hc
    cases hlast : core.getLast? with
    | none => exact absurd (List.getLast?_eq_none_iff.mp hlast) hne
    | some d => simpa [hlast] using hc
  rw [List.append_assoc, trim, hstart, ← List.append_assoc,
    trimEnd_append _ hend]

theorem trim_concat_of_isBlank {c : Char} (h : isBlank c = true) (text : List Char) :
    trim (text ++ [c]) = trim text := by
  have hstart : trimStart (text ++ [c]) =
      if (trimStart text).isEmpty then [] else trimStart text ++ [c] := by
    simp [trimStart, List.dropWhile_append, h]
  rw [trim, trim, hstart]
  split
  · next hempty => rw [List.isEmpty_iff.mp hempty]
  · exact trimEnd_concat_of_isBlank h _

theorem trimStart_trimStart_append (before after : List Char) :
    trimStart (trimStart before ++ after) = trimStart (before ++ after) := by
  induction before with
  | nil => rfl
  | cons c rest ih =>
      by_cases hc : isBlank c = true
      · rw [trimStart_cons_of_isBlank hc, List.cons_append, trimStart_cons_of_isBlank hc, ih]
      · have hself : trimStart (c :: rest) = c :: rest :=
          trimStart_of_noLeadingBlank (by simpa [NoLeadingBlank] using hc)
        rw [hself]

theorem trimEnd_append_trimEnd (before after : List Char) :
    trimEnd (before ++ trimEnd after) = trimEnd (before ++ after) := by
  rw [trimEnd_eq_reverse, trimEnd_eq_reverse, trimEnd_eq_reverse, List.reverse_append,
    List.reverse_append, List.reverse_reverse, trimStart_trimStart_append]

theorem trim_trimStart (text : List Char) : trim (trimStart text) = trim text := by
  rw [trim, trimStart_of_noLeadingBlank (noLeadingBlank_trimStart text), trim]

theorem trim_trimEnd (text : List Char) : trim (trimEnd text) = trim text := by
  induction text using List.reverseRecOn with
  | nil => rfl
  | append_singleton init c ih =>
      by_cases hc : isBlank c = true
      · rw [trimEnd_concat_of_isBlank hc, trim_concat_of_isBlank hc, ih]
      · rw [trimEnd_of_noTrailingBlank]
        intro d hd
        rw [List.getLast?_append] at hd
        cases hd
        rwa [Bool.not_eq_true] at hc

theorem trimStart_isSuffix (text : List Char) : trimStart text <:+ text :=
  List.dropWhile_suffix isBlank

theorem trimEnd_isPrefix (text : List Char) : trimEnd text <+: text := by
  have h := List.reverse_prefix.mpr (trimStart_isSuffix text.reverse)
  rwa [List.reverse_reverse, ← trimEnd_eq_reverse] at h

theorem trim_eq_trimStart_trimEnd (text : List Char) : trim text = trimStart (trimEnd text) := by
  rw [← trim_trimEnd, trim, trimEnd_of_noTrailingBlank]
  intro c hc
  obtain ⟨init, hinit⟩ := trimStart_isSuffix (trimEnd text)
  apply noTrailingBlank_trimEnd text c
  rw [← hinit, List.getLast?_append, hc]
  rfl

/-- What trimming takes off a text. -/
theorem exists_blanks_trim (text : List Char) :
    ∃ before after, (∀ c ∈ before, isBlank c = true) ∧ (∀ c ∈ after, isBlank c = true) ∧
      text = before ++ trim text ++ after := by
  refine ⟨text.takeWhile isBlank, ((trimStart text).reverse.takeWhile isBlank).reverse,
    List.all_eq_true.mp List.all_takeWhile, ?_, ?_⟩
  · intro c hc
    exact List.all_eq_true.mp List.all_takeWhile c (List.mem_reverse.mp hc)
  · have hend : trim text ++ ((trimStart text).reverse.takeWhile isBlank).reverse =
        trimStart text := by
      rw [trim, trimEnd_eq_reverse, trimStart, ← List.reverse_append,
        List.takeWhile_append_dropWhile, List.reverse_reverse]
    rw [List.append_assoc, hend]
    exact List.takeWhile_append_dropWhile.symm

theorem isBlank_of_trim_eq_nil {text : List Char} (h : trim text = []) :
    ∀ c ∈ text, isBlank c = true := by
  obtain ⟨before, after, hbefore, hafter, heq⟩ := exists_blanks_trim text
  rw [h, List.append_nil] at heq
  intro c hc
  rw [heq] at hc
  rcases List.mem_append.mp hc with hc | hc
  · exact hbefore c hc
  · exact hafter c hc

theorem trimStart_eq_nil {text : List Char} (h : trim text = []) : trimStart text = [] := by
  rw [trimStart, List.dropWhile_eq_nil_iff]
  exact isBlank_of_trim_eq_nil h

theorem trimEnd_eq_nil {text : List Char} (h : trim text = []) : trimEnd text = [] := by
  rw [trimEnd, List.reverse_eq_nil_iff, List.dropWhile_eq_nil_iff]
  intro c hc
  exact isBlank_of_trim_eq_nil h c (List.mem_reverse.mp hc)

end Switchboard.Text
