import Switchboard.Proofs.Grammar
import Switchboard.Proofs.Reading

/-!
How groups are taken out of a text, one stretch at a time. Clearing a stretch puts a
placeholder for each group in it, whatever stands around it, as long as no parenthesis
before it closes. So the groups of two stretches are taken out of the first stretch and
then out of the second, and those inside a group before the group itself.
-/

namespace Switchboard

open Text

namespace Groups

variable {parse : List Expr → List Char → Expr}

theorem readIndex?_toDigits (index : Nat) : readIndex? (Nat.toDigits 10 index) = some index := by
  have hdigit (c : Char) (hc : c ∈ Nat.toDigits 10 index) : c.isDigit = true :=
    Nat.isDigit_of_mem_toDigits (by decide) (by decide) hc
  have hplus : ∀ rest, Nat.toDigits 10 index = '+' :: rest → False := by
    intro rest heq
    have hplus := hdigit '+' (by rw [heq]; exact List.mem_cons_self)
    exact absurd hplus (by decide)
  have hne : (Nat.toDigits 10 index).isEmpty = false := by
    rw [List.isEmpty_eq_false_iff]
    exact Nat.toDigits_ne_nil
  have hall : (Nat.toDigits 10 index).all Char.isDigit = true := List.all_eq_true.mpr hdigit
  simp only [readIndex?, hne, hall, Nat.ofDigitChars_ten_toDigits]
  rfl

theorem of_readIndex? {text : List Char} {index : Nat} (h : readIndex? text = some index) :
    ∀ c ∈ text, c = '+' ∨ c.isDigit = true := by
  have hdigits {digits : List Char} (h : (if digits.isEmpty || !digits.all Char.isDigit then none
      else some (Nat.ofDigitChars 10 digits 0)) = some index) :
      ∀ c ∈ digits, c.isDigit = true := by
    split at h
    · cases h
    · next hall =>
        rw [Bool.or_eq_true, not_or, Bool.not_eq_true', Bool.not_eq_false] at hall
        exact List.all_eq_true.mp hall.2
  intro c hc
  simp only [readIndex?] at h
  split at h
  · rcases List.mem_cons.mp hc with rfl | hc
    · exact Or.inl rfl
    · exact Or.inr (hdigits h c hc)
  · exact Or.inr (hdigits h c hc)

theorem trimmed_placeholder (index : Nat) : Trimmed (placeholder index) := by
  refine ⟨?_, ?_⟩
  · rintro c ⟨⟩
    decide
  · intro c hc
    rw [placeholder, List.getLast?_append] at hc
    cases hc
    decide

theorem of_mem_placeholder {index : Nat} {c : Char} (hc : c ∈ placeholder index) :
    c = openMark ∨ c = closeMark ∨ c.isDigit = true := by
  simp only [placeholder, List.cons_append, List.mem_cons, List.mem_append, List.not_mem_nil,
    or_false] at hc
  rcases hc with hc | hc | hc
  · exact Or.inl hc
  · exact Or.inr (Or.inr (Nat.isDigit_of_mem_toDigits (by decide) (by decide) hc))
  · exact Or.inr (Or.inl hc)

theorem lineFeed_notMem_placeholder (index : Nat) : '\n' ∉ placeholder index := by
  intro hmem
  rcases of_mem_placeholder hmem with h | h | h
  · exact absurd h (by decide)
  · exact absurd h (by decide)
  · exact absurd h (by decide)

theorem lineFeed_notMem_replaceGroup (index : Nat) {before inner after : List Char}
    (h : '\n' ∉ before ++ '(' :: inner ++ ')' :: after) :
    '\n' ∉ replaceGroup index before after := by
  intro hmem
  have hmem := (trim_sublist _).subset hmem
  simp only [List.mem_append, List.mem_cons, not_or] at h hmem
  rcases hmem with (hbefore | hspace | hplaceholder) | hspace | hafter
  · exact h.1.1 hbefore
  · exact absurd hspace (by decide)
  · exact lineFeed_notMem_placeholder index hplaceholder
  · exact absurd hspace (by decide)
  · exact h.2.2 hafter

/-- A placeholder stands for the group of its number. -/
theorem find?_placeholder (groups : List Expr) (index : Nat) :
    find? groups (placeholder index) = groups[index]? := by
  have hlast : (Nat.toDigits 10 index ++ [closeMark]).getLast? = some closeMark := by simp
  have hinit : (Nat.toDigits 10 index ++ [closeMark]).dropLast = Nat.toDigits 10 index := by simp
  rw [placeholder, List.cons_append, find?, hlast, hinit, readIndex?_toDigits]
  simp

theorem isDigit_eq_false_of_isAlpha {c : Char} (h : c.isAlpha = true) : c.isDigit = false := by
  rw [Bool.eq_false_iff]
  intro hdigit
  simp only [Char.isAlpha, Char.isUpper, Char.isLower, Char.isDigit, Bool.or_eq_true,
    Bool.and_eq_true, decide_eq_true_eq, ge_iff_le, UInt32.le_iff_toNat_le] at h hdigit
  change (65 ≤ c.toNat ∧ c.toNat ≤ 90) ∨ (97 ≤ c.toNat ∧ c.toNat ≤ 122) at h
  change 48 ≤ c.toNat ∧ c.toNat ≤ 57 at hdigit
  omega

/-- A text that stands for a group has one mark at each end, and nothing but digits and a plus
sign between them. -/
theorem exists_init_of_find? {groups : List Expr} {text : List Char} {group : Expr}
    (h : find? groups text = some group) :
    ∃ init, text = openMark :: (init ++ [closeMark]) ∧ ∀ c ∈ init, c = '+' ∨ c.isDigit = true := by
  cases text with
  | nil => cases h
  | cons d rest =>
      rw [find?] at h
      split at h
      · next hmarks =>
          rw [Bool.and_eq_true, decide_eq_true_eq, decide_eq_true_eq] at hmarks
          obtain ⟨init, hinit⟩ := List.getLast?_eq_some_iff.mp hmarks.2
          rw [Option.bind_eq_some_iff] at h
          obtain ⟨index, hindex, _⟩ := h
          rw [hinit, List.dropLast_concat] at hindex
          exact ⟨init, by rw [hmarks.1, hinit], of_readIndex? hindex⟩
      · cases h

/-- Only marks, digits and a plus sign are in a text that stands for a group. -/
theorem of_mem_of_find? {groups : List Expr} {text : List Char} {group : Expr}
    (h : find? groups text = some group) {c : Char} (hc : c ∈ text) :
    c = openMark ∨ c = closeMark ∨ c = '+' ∨ c.isDigit = true := by
  obtain ⟨init, rfl, hinit⟩ := exists_init_of_find? h
  rw [List.mem_cons, List.mem_append, List.mem_singleton] at hc
  rcases hc with hc | hc | hc
  · exact Or.inl hc
  · exact Or.inr (Or.inr (hinit c hc))
  · exact Or.inr (Or.inl hc)

theorem find?_eq_none_of_mem {c : Char} {text : List Char} (hc : c ∈ text)
    (hletter : c.isAlpha = true) (groups : List Expr) : find? groups text = none := by
  rw [Option.eq_none_iff_forall_ne_some]
  intro group hfind
  rcases of_mem_of_find? hfind hc with rfl | rfl | rfl | hdigit
  · exact absurd hletter (by decide)
  · exact absurd hletter (by decide)
  · exact absurd hletter (by decide)
  · rw [isDigit_eq_false_of_isAlpha hletter] at hdigit
    cases hdigit

theorem cutAtClose?_of_open {before : List Char} (h : ')' ∉ before) (after : List Char) :
    cutAtClose? (before ++ '(' :: after) = none := by
  induction before with
  | nil => rfl
  | cons c rest ih =>
      rw [List.mem_cons, not_or] at h
      rw [List.cons_append, cutAtClose?, if_neg (Ne.symm h.1)]
      split
      · rfl
      · rw [ih h.2, Option.map_none]

/-- The first group is the innermost one if nothing closes before it. -/
theorem innermost?_append {before inner after : List Char} (hbefore : ')' ∉ before)
    (hopen : '(' ∉ inner) (hclose : ')' ∉ inner) :
    innermost? (before ++ '(' :: inner ++ ')' :: after) = some (before, inner, after) := by
  induction before with
  | nil =>
      have hcut := cutAtClose?_append hopen hclose after
      simp only [List.nil_append, List.cons_append, innermost?, if_true, hcut]
  | cons c rest ih =>
      rw [List.mem_cons, not_or] at hbefore
      have hnone : (if c = '(' then
          cutAtClose? (rest ++ '(' :: inner ++ ')' :: after) else none) = none := by
        split
        · rw [List.append_assoc, List.cons_append, cutAtClose?_of_open hbefore.2]
        · rfl
      rw [List.cons_append, List.cons_append, innermost?, hnone, ih hbefore.2, Option.map_some]

/-- Taking the groups out of a stretch leaves a flat stretch, wherever the stretch stands
behind a text in which nothing closes. -/
def Clears (parse : List Expr → List Char → Expr) (groups : List Expr) (text : List Char)
    (groups' : List Expr) (flat : List Char) : Prop :=
  ∀ before after, ')' ∉ before →
    takeOut parse groups (trim (before ++ text ++ after)) =
      takeOut parse groups' (trim (before ++ flat ++ after))

theorem Clears.refl (groups : List Expr) (text : List Char) :
    Clears parse groups text groups text :=
  fun _ _ _ => rfl

theorem Clears.append {groups middle last : List Expr} {left right flat flat' : List Char}
    (hleft : Clears parse groups left middle flat) (hflat : ')' ∉ flat)
    (hright : Clears parse middle right last flat') :
    Clears parse groups (left ++ right) last (flat ++ flat') := by
  intro before after hbefore
  have hfirst := hleft before (right ++ after) hbefore
  have hthen := hright (before ++ flat) after (by simp [hbefore, hflat])
  simp only [List.append_assoc] at hfirst hthen ⊢
  rw [hfirst, hthen]

/-- A group is taken out after the groups inside it. -/
theorem Clears.group {groups groups' : List Expr} {text flat : List Char}
    (h : Clears parse groups text groups' flat) (hopen : '(' ∉ flat) (hclose : ')' ∉ flat) :
    Clears parse groups (['('] ++ (text ++ [')']))
      (groups' ++ [parse groups' (trim flat)])
      ([' '] ++ (placeholder groups'.length ++ [' '])) := by
  intro before after hbefore
  have hinner := h (before ++ ['(']) (')' :: after) (by simp [hbefore])
  have hcore : Trimmed ('(' :: flat ++ [')']) := by
    refine ⟨?_, ?_⟩
    · rintro c ⟨⟩
      decide
    · intro c hc
      rw [List.getLast?_append] at hc
      cases hc
      decide
  have hplace : Trimmed (placeholder groups'.length) := trimmed_placeholder _
  have htrim := trim_append_append before after (by simp) hcore
  have hfound : innermost? (trim (before ++ ('(' :: flat ++ [')']) ++ after)) =
      some (trimStart before, flat, trimEnd after) := by
    rw [htrim]
    have hbefore' : ')' ∉ trimStart before := fun hc =>
      hbefore ((trimStart_sublist before).subset hc)
    have hfirst : innermost? (trimStart before ++ '(' :: flat ++ ')' :: trimEnd after) =
        some (trimStart before, flat, trimEnd after) := innermost?_append hbefore' hopen hclose
    simpa using hfirst
  have hreplace : replaceGroup groups'.length (trimStart before) (trimEnd after) =
      trim (before ++ ([' '] ++ (placeholder groups'.length ++ [' '])) ++ after) := by
    have hleft := trim_append_append (trimStart before ++ [' ']) ([' '] ++ trimEnd after)
      (by simp [placeholder]) hplace
    have hright := trim_append_append (before ++ [' ']) ([' '] ++ after)
      (by simp [placeholder]) hplace
    rw [trimStart_trimStart_append, trimEnd_append_trimEnd] at hleft
    rw [← hright] at hleft
    simpa [replaceGroup, List.append_assoc] using hleft
  have hstep := takeOut_of_innermost? parse groups' hfound
  rw [hreplace] at hstep
  rw [← hstep]
  simpa [List.append_assoc] using hinner

end Groups

end Switchboard
