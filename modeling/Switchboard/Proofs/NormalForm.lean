import Switchboard.Expr.Spelling
import Switchboard.Proofs.Characters

/-!
The normal spelling as an operation on texts. Spelling out and weighing work from
left to right, so the normal form of a text in two parts is made of the normal
forms of the parts; only the blanks where they meet are weighed anew. A normal form
has no operator signs left and no blank to weigh, so it is its own normal form.
-/

namespace Switchboard.Spelling

open Text

/-- Two signs that together spell an operator. -/
def Clash (a b : Char) : Prop :=
  (a = '|' ∧ b = '|') ∨ (a = '&' ∧ b = '&') ∨ (a = '[' ∧ b = ']')

/-- No operator of the text is written with signs. -/
def SignFree (text : List Char) : Prop :=
  '!' ∉ text ∧ text.IsChain fun a b => ¬ Clash a b

theorem not_clash_blank_left {a : Char} (h : isBlank a = true) (b : Char) : ¬ Clash a b := by
  rintro (⟨rfl, _⟩ | ⟨rfl, _⟩ | ⟨rfl, _⟩) <;> exact absurd h (by decide)

theorem not_clash_blank_right {b : Char} (h : isBlank b = true) (a : Char) : ¬ Clash a b := by
  rintro (⟨_, rfl⟩ | ⟨_, rfl⟩ | ⟨_, rfl⟩) <;> exact absurd h (by decide)

/-- Signs that clash are no word characters. -/
theorem isPlain_of_clash {a b : Char} (h : Clash a b) : isPlain a = false ∧ isPlain b = false := by
  rcases h with ⟨rfl, rfl⟩ | ⟨rfl, rfl⟩ | ⟨rfl, rfl⟩ <;> decide

theorem spellOut_cons {c : Char} {rest : List Char} (hbang : c ≠ '!')
    (hpair : ∀ d ∈ rest.head?, ¬ Clash c d) : spellOut (c :: rest) = c :: spellOut rest := by
  rw [spellOut.eq_def]
  split
  · next heq =>
      obtain ⟨rfl, rfl⟩ := List.cons.inj heq
      exact absurd (Or.inl ⟨rfl, rfl⟩) (hpair _ rfl)
  · next heq =>
      obtain ⟨rfl, rfl⟩ := List.cons.inj heq
      exact absurd (Or.inr (Or.inl ⟨rfl, rfl⟩)) (hpair _ rfl)
  · next heq => exact absurd (List.cons.inj heq).1 hbang
  · next heq =>
      obtain ⟨rfl, rfl⟩ := List.cons.inj heq
      exact absurd (Or.inr (Or.inr ⟨rfl, rfl⟩)) (hpair _ rfl)
  · next heq =>
      obtain ⟨rfl, rfl⟩ := List.cons.inj heq
      rfl
  · next heq => cases heq

theorem spellOut_of_signFree {text : List Char} (h : SignFree text) : spellOut text = text := by
  induction text with
  | nil => rfl
  | cons c rest ih =>
      obtain ⟨hbang, hchain⟩ := h
      rw [List.mem_cons, not_or] at hbang
      rw [List.isChain_cons] at hchain
      rw [spellOut_cons (Ne.symm hbang.1) hchain.1, ih ⟨hbang.2, hchain.2⟩]

theorem head?_spellOut (text : List Char) :
    (spellOut text).head? = some ' ' ∨ (spellOut text).head? = text.head? := by
  rw [spellOut.eq_def]
  split <;> simp

theorem getLast?_spellOut (text : List Char) :
    (spellOut text).getLast? = some ' ' ∨ (spellOut text).getLast? = text.getLast? := by
  fun_induction spellOut text with
  | case1 rest ih | case2 rest ih | case3 rest ih | case4 rest ih =>
      -- the blank behind a keyword is the last character if nothing follows it
      rcases ih with ih | ih
      · exact Or.inl (by simp [List.getLast?_cons, ih])
      · cases hlast : rest.getLast? <;> simp [List.getLast?_cons, ih, hlast]
  | case5 c rest _ _ _ _ ih =>
      rw [List.getLast?_cons, List.getLast?_cons]
      rcases ih with ih | ih
      · exact Or.inl (by rw [ih]; rfl)
      · exact Or.inr (by rw [ih])
  | case6 => exact Or.inr rfl

theorem signFree_cons (c : Char) (text : List Char) :
    SignFree (c :: text) ↔ c ≠ '!' ∧ (∀ d ∈ text.head?, ¬ Clash c d) ∧ SignFree text := by
  rw [SignFree, SignFree, List.isChain_cons, List.mem_cons, not_or]
  constructor
  · rintro ⟨⟨hbang, hrest⟩, hpair, hchain⟩
    exact ⟨Ne.symm hbang, hpair, hrest, hchain⟩
  · rintro ⟨hbang, hpair, hrest, hchain⟩
    exact ⟨⟨Ne.symm hbang, hrest⟩, hpair, hchain⟩

/-- A blank or a word character before a text spells no operator. -/
theorem SignFree.cons {c : Char} (hc : isBlank c = true ∨ isPlain c = true) {text : List Char}
    (h : SignFree text) : SignFree (c :: text) := by
  refine (signFree_cons c text).mpr ⟨?_, ?_, h⟩
  · rintro rfl
    exact absurd hc (by decide)
  · intro d _ hclash
    rcases hc with hblank | hplain
    · exact not_clash_blank_left hblank d hclash
    · rw [(isPlain_of_clash hclash).1] at hplain
      cases hplain

theorem SignFree.keyword {text : List Char} (h : SignFree text) (word : List Char)
    (hword : word.all isPlain = true) : SignFree (word ++ ' ' :: text) := by
  induction word with
  | nil => exact h.cons (Or.inl (by decide))
  | cons c rest ih =>
      rw [List.all_cons, Bool.and_eq_true] at hword
      exact (ih hword.2).cons (Or.inr hword.1)

theorem SignFree.of_isInfix {part text : List Char} (h : SignFree text) (hpart : part <:+: text) :
    SignFree part :=
  ⟨fun hbang => h.1 (hpart.subset hbang), List.IsChain.infix h.2 hpart⟩

theorem SignFree.append {before after : List Char} (hbefore : SignFree before)
    (hafter : SignFree after) (hmeet : ∀ x ∈ before.getLast?, ∀ y ∈ after.head?, ¬ Clash x y) :
    SignFree (before ++ after) := by
  refine ⟨?_, hbefore.2.append hafter.2 hmeet⟩
  rw [List.mem_append, not_or]
  exact ⟨hbefore.1, hafter.1⟩

theorem signFree_spellOut (text : List Char) : SignFree (spellOut text) := by
  fun_induction spellOut text with
  | case1 rest ih => exact (ih.keyword ['o', 'r'] (by decide)).cons (Or.inl (by decide))
  | case2 rest ih =>
      exact (ih.keyword ['a', 'n', 'd'] (by decide)).cons (Or.inl (by decide))
  | case3 rest ih =>
      exact (ih.keyword ['n', 'o', 't'] (by decide)).cons (Or.inl (by decide))
  | case4 rest ih =>
      exact (ih.keyword ['a', 'r', 'r', 'a', 'y'] (by decide)).cons (Or.inl (by decide))
  | case5 c rest hor hand hnot harray ih =>
      refine (signFree_cons c _).mpr ⟨hnot, ?_, ih⟩
      intro d hd hclash
      rcases head?_spellOut rest with hhead | hhead
      · rw [hhead] at hd
        cases hd
        exact not_clash_blank_right (by decide) c hclash
      · rw [hhead] at hd
        obtain ⟨tail, rfl⟩ := List.head?_eq_some_iff.mp hd
        rcases hclash with ⟨hc, hd⟩ | ⟨hc, hd⟩ | ⟨hc, hd⟩
        · exact hor tail hc (by rw [hd])
        · exact hand tail hc (by rw [hd])
        · exact harray tail hc (by rw [hd])
  | case6 => exact ⟨by simp, .nil⟩

/-- Texts whose meeting ends spell no operator are spelled out part by part. -/
theorem spellOut_append {before after : List Char}
    (h : ∀ x ∈ before.getLast?, ∀ y ∈ after.head?, ¬ Clash x y) :
    spellOut (before ++ after) = spellOut before ++ spellOut after := by
  have hlast (c : Char) (rest : List Char)
      (hc : ∀ x ∈ (c :: rest).getLast?, ∀ y ∈ after.head?, ¬ Clash x y) :
      ∀ x ∈ rest.getLast?, ∀ y ∈ after.head?, ¬ Clash x y := by
    intro x hx
    apply hc x
    rw [List.getLast?_cons, hx]
    rfl
  fun_induction spellOut before with
  | case1 rest ih => simp [spellOut, ih (hlast _ _ (hlast _ _ h))]
  | case2 rest ih => simp [spellOut, ih (hlast _ _ (hlast _ _ h))]
  | case3 rest ih => simp [spellOut, ih (hlast _ _ h)]
  | case4 rest ih => simp [spellOut, ih (hlast _ _ (hlast _ _ h))]
  | case5 c rest hor hand hnot harray ih =>
      rw [List.cons_append, spellOut_cons hnot, ih (hlast c rest h), List.cons_append]
      intro d hd hclash
      cases rest with
      | nil => exact h c rfl d hd hclash
      | cons e tail =>
          cases hd
          rcases hclash with ⟨hc, hd⟩ | ⟨hc, hd⟩ | ⟨hc, hd⟩
          · exact hor tail hc (by rw [hd])
          · exact hand tail hc (by rw [hd])
          · exact harray tail hc (by rw [hd])
  | case6 => rfl

/-! Weighing -/

/-- A part of a text after the character `last`, with the blank between them weighed. -/
def weighed (last : Char) (text : List Char) : List Char :=
  match text with
  | [] => []
  | c :: rest => if isPlain last == isPlain c then ' ' :: c :: rest else c :: rest

theorem weigh_cons_of_isBlank {c : Char} (h : isBlank c = true) (text : List Char) :
    weigh (c :: text) = weigh text := by
  rw [weigh, trimStart_cons_of_isBlank h, weigh]

theorem weigh_cons_of_not_isBlank {c : Char} (h : isBlank c = false) (text : List Char) :
    weigh (c :: text) = c :: weighAfter c false text := by
  have hstart : trimStart (c :: text) = c :: text :=
    trimStart_of_noLeadingBlank (by simpa [NoLeadingBlank] using h)
  rw [weigh, hstart]

theorem weighAfter_blank {c : Char} (h : isBlank c = true) (last : Char) (gap : Bool)
    (text : List Char) : weighAfter last gap (c :: text) = weighAfter last true text := by
  rw [weighAfter, if_pos h]

/-- After a gap a text goes on as it would on its own, behind the weighed blank. -/
theorem weighAfter_true (last : Char) (text : List Char) :
    weighAfter last true text = weighed last (weigh text) := by
  induction text with
  | nil => rfl
  | cons c rest ih =>
      by_cases hc : isBlank c = true
      · rw [weighAfter_blank hc, weigh_cons_of_isBlank hc, ih]
      · rw [Bool.not_eq_true] at hc
        rw [weigh_cons_of_not_isBlank hc, weighAfter, weighed]
        simp [hc]

theorem weighAfter_false_cons {c : Char} (h : isBlank c = false) (last : Char)
    (text : List Char) : weighAfter last false (c :: text) = weigh (c :: text) := by
  rw [weigh_cons_of_not_isBlank h, weighAfter]
  simp [h]

theorem weighAfter_cons_of_not_isBlank {c : Char} (h : isBlank c = false) (last : Char)
    (gap : Bool) (text : List Char) :
    weighAfter last gap (c :: text) = weighAfter last gap [c] ++ weighAfter c false text := by
  simp only [weighAfter, h, Bool.false_eq_true, if_false]
  split <;> simp

theorem weighAfter_singleton_getLastD {c : Char} (h : isBlank c = false) (last : Char)
    (gap : Bool) (text : List Char) :
    (weighAfter last gap [c] ++ text).getLastD last = text.getLastD c := by
  simp only [weighAfter, h, Bool.false_eq_true, if_false]
  split <;> cases text <;> simp [List.getLast?_cons]

/-- A blank parts a text: what follows it is weighed on its own, and then against the
last character before it. -/
theorem weighAfter_append_blank {c : Char} (h : isBlank c = true) (last : Char) (gap : Bool)
    (before after : List Char) :
    weighAfter last gap (before ++ c :: after) =
      weighAfter last gap before ++
        weighed ((weighAfter last gap before).getLastD last) (weigh after) := by
  induction before generalizing last gap with
  | nil => rw [List.nil_append, weighAfter_blank h, weighAfter_true]; rfl
  | cons d rest ih =>
      by_cases hd : isBlank d = true
      · rw [List.cons_append, weighAfter_blank hd, weighAfter_blank hd, ih]
      · rw [Bool.not_eq_true] at hd
        rw [List.cons_append, weighAfter_cons_of_not_isBlank hd,
          weighAfter_cons_of_not_isBlank hd last gap rest, ih,
          weighAfter_singleton_getLastD hd, List.append_assoc]

/-- Where two parts meet without a blank nothing is weighed. -/
theorem weighAfter_append_of_not_isBlank {before after : List Char} (hne : before ≠ [])
    (hbefore : NoTrailingBlank before) (hafter : NoLeadingBlank after) (last : Char)
    (gap : Bool) :
    weighAfter last gap (before ++ after) = weighAfter last gap before ++ weigh after := by
  induction before generalizing last gap with
  | nil => exact absurd rfl hne
  | cons d rest ih =>
      cases rest with
      | nil =>
          have hd : isBlank d = false := hbefore d rfl
          rw [List.singleton_append, weighAfter_cons_of_not_isBlank hd]
          cases after with
          | nil => rfl
          | cons c tail => rw [weighAfter_false_cons (hafter c rfl)]
      | cons e tail =>
          have hrest : NoTrailingBlank (e :: tail) := hbefore.of_cons
          by_cases hd : isBlank d = true
          · rw [List.cons_append, weighAfter_blank hd, weighAfter_blank hd,
              ih (by simp) hrest]
          · rw [Bool.not_eq_true] at hd
            rw [List.cons_append, weighAfter_cons_of_not_isBlank hd,
              weighAfter_cons_of_not_isBlank hd last gap (e :: tail), ih (by simp) hrest,
              List.append_assoc]

/-- Two texts put together with a weighed blank between them. -/
def glue (before after : List Char) : List Char :=
  match before.getLast? with
  | none => after
  | some last => before ++ weighed last after

theorem glue_cons (c : Char) (before after : List Char) :
    glue (c :: before) after = c :: before ++ weighed (before.getLastD c) after := by
  rw [glue, List.getLast?_cons, List.getLastD_eq_getLast?]

/-- The normal form of two texts with a blank between them. -/
theorem weigh_append_blank {c : Char} (h : isBlank c = true) (before after : List Char) :
    weigh (before ++ c :: after) = glue (weigh before) (weigh after) := by
  induction before with
  | nil => exact weigh_cons_of_isBlank h after
  | cons d rest ih =>
      by_cases hd : isBlank d = true
      · rw [List.cons_append, weigh_cons_of_isBlank hd, weigh_cons_of_isBlank hd, ih]
      · rw [Bool.not_eq_true] at hd
        rw [List.cons_append, weigh_cons_of_not_isBlank hd, weigh_cons_of_not_isBlank hd,
          weighAfter_append_blank h, glue_cons, List.cons_append]

/-- The normal form of two texts that meet without a blank. -/
theorem weigh_append_of_not_isBlank {before after : List Char}
    (hbefore : NoTrailingBlank before) (hafter : NoLeadingBlank after) :
    weigh (before ++ after) = weigh before ++ weigh after := by
  induction before with
  | nil => rfl
  | cons d rest ih =>
      by_cases hnil : rest = []
      · subst hnil
        have hd : isBlank d = false := hbefore d rfl
        rw [List.singleton_append, weigh_cons_of_not_isBlank hd, weigh_cons_of_not_isBlank hd]
        cases after with
        | nil => rfl
        | cons c tail => rw [weighAfter_false_cons (hafter c rfl)]; rfl
      · have hrest : NoTrailingBlank rest := hbefore.of_cons
        by_cases hd : isBlank d = true
        · rw [List.cons_append, weigh_cons_of_isBlank hd, weigh_cons_of_isBlank hd, ih hrest]
        · rw [Bool.not_eq_true] at hd
          rw [List.cons_append, weigh_cons_of_not_isBlank hd, weigh_cons_of_not_isBlank hd,
            weighAfter_append_of_not_isBlank hnil hrest hafter, List.cons_append]

theorem getLast?_weighAfter {text : List Char} (h : NoTrailingBlank text) (hne : text ≠ [])
    (last : Char) (gap : Bool) : (weighAfter last gap text).getLast? = text.getLast? := by
  induction text generalizing last gap with
  | nil => exact absurd rfl hne
  | cons d rest ih =>
      by_cases hnil : rest = []
      · subst hnil
        have hd : isBlank d = false := h d rfl
        simp only [weighAfter, hd, Bool.false_eq_true, if_false]
        split <;> rfl
      · have hrest : NoTrailingBlank rest := h.of_cons
        rw [List.getLast?_cons_of_ne_nil hnil]
        by_cases hd : isBlank d = true
        · rw [weighAfter_blank hd, ih hrest hnil]
        · rw [Bool.not_eq_true] at hd
          rw [weighAfter_cons_of_not_isBlank hd, List.getLast?_append, ih hrest hnil]
          cases hlast : rest.getLast? with
          | none => exact absurd (List.getLast?_eq_none_iff.mp hlast) hnil
          | some x => rfl

theorem getLast?_weigh {text : List Char} (h : NoTrailingBlank text) :
    (weigh text).getLast? = text.getLast? := by
  induction text with
  | nil => rfl
  | cons d rest ih =>
      by_cases hd : isBlank d = true
      · rw [weigh_cons_of_isBlank hd]
        cases rest with
        | nil => exact absurd (h d rfl) (by simp [hd])
        | cons e tail => rw [ih h.of_cons, List.getLast?_cons_cons]
      · rw [Bool.not_eq_true] at hd
        rw [weigh_cons_of_not_isBlank hd, List.getLast?_cons, List.getLast?_cons]
        cases rest with
        | nil => rfl
        | cons e tail => rw [getLast?_weighAfter h.of_cons (by simp)]

theorem head?_weigh {text : List Char} (h : NoLeadingBlank text) :
    (weigh text).head? = text.head? := by
  cases text with
  | nil => rfl
  | cons c rest => rw [weigh_cons_of_not_isBlank (h c rfl)]; rfl

/-- Two texts that can meet without their words running together. -/
def Apart (before after : List Char) : Prop :=
  ∀ x ∈ before.getLast?, ∀ y ∈ after.head?, isPlain x = false ∨ isPlain y = false

instance (before after : List Char) : Decidable (Apart before after) :=
  decidable_of_iff
    ((before.getLast?.all fun x => after.head?.all fun y => !isPlain x || !isPlain y) = true)
    (by simp [Apart, Option.all_eq_true])

theorem glue_nil (before : List Char) : glue before [] = before := by
  rw [glue]
  split
  · next h => rw [List.getLast?_eq_none_iff.mp h]
  · simp [weighed]

/-- Texts that are glued together are parted by a space where they need one. -/
theorem exists_gap_glue (before after : List Char) :
    ∃ gap, (gap = [] ∨ gap = [' ']) ∧ glue before after = before ++ (gap ++ after) ∧
      Apart before (gap ++ after) := by
  rw [glue]
  split
  · next h =>
      refine ⟨[], Or.inl rfl, by rw [List.getLast?_eq_none_iff.mp h]; rfl, ?_⟩
      intro x hx
      rw [h] at hx
      cases hx
  · next last h =>
      cases after with
      | nil =>
          refine ⟨[], Or.inl rfl, rfl, ?_⟩
          intro x _ y hy
          cases hy
      | cons c rest =>
          by_cases hsame : (isPlain last == isPlain c) = true
          · refine ⟨[' '], Or.inr rfl, by simp [weighed, hsame], ?_⟩
            rintro x _ y ⟨⟩
            exact Or.inr (by decide)
          · refine ⟨[], Or.inl rfl, by simp [weighed, hsame], ?_⟩
            rintro x hx y ⟨⟩
            rw [h] at hx
            cases hx
            revert hsame
            cases isPlain last <;> cases isPlain c <;> simp

/-- The normal form of two texts that do not run together. -/
theorem weigh_append_of_apart {before after : List Char} (h : Apart before after) :
    ∃ gap, (gap = [] ∨ gap = [' ']) ∧
      weigh (before ++ after) = weigh before ++ (gap ++ weigh after) ∧
      Apart (weigh before) (gap ++ weigh after) := by
  by_cases hafter : NoLeadingBlank after
  · by_cases hbefore : NoTrailingBlank before
    · refine ⟨[], Or.inl rfl, weigh_append_of_not_isBlank hbefore hafter, ?_⟩
      intro x hx y hy
      rw [getLast?_weigh hbefore] at hx
      rw [List.nil_append, head?_weigh hafter] at hy
      exact h x hx y hy
    · obtain ⟨init, c, hc, rfl⟩ := exists_of_not_noTrailingBlank hbefore
      rw [List.append_assoc, List.singleton_append, weigh_append_blank hc, weigh_append_blank hc,
        show weigh [] = [] from rfl, glue_nil]
      obtain ⟨gap, hgap, heq, hapart⟩ := exists_gap_glue (weigh init) (weigh after)
      exact ⟨gap, hgap, heq, hapart⟩
  · obtain ⟨c, rest, hc, rfl⟩ := exists_of_not_noLeadingBlank hafter
    rw [weigh_append_blank hc, weigh_cons_of_isBlank hc]
    obtain ⟨gap, hgap, heq, hapart⟩ := exists_gap_glue (weigh before) (weigh rest)
    exact ⟨gap, hgap, heq, hapart⟩

/-- Weighing a weighed text changes nothing. -/
theorem weighAfter_weighAfter (last : Char) (gap : Bool) (text : List Char) :
    weighAfter last false (weighAfter last gap text) = weighAfter last gap text := by
  induction text generalizing last gap with
  | nil => rfl
  | cons c rest ih =>
      by_cases hc : isBlank c = true
      · rw [weighAfter_blank hc, ih]
      · rw [Bool.not_eq_true] at hc
        simp only [weighAfter, hc, Bool.false_eq_true, if_false]
        split
        · next hsame =>
            rw [Bool.and_eq_true] at hsame
            rw [weighAfter_blank (by decide), weighAfter_true, weigh_cons_of_not_isBlank hc, ih]
            simp only [weighed, hsame.2, if_true]
        · simp [weighAfter, hc, ih c false]

theorem weigh_weigh (text : List Char) : weigh (weigh text) = weigh text := by
  induction text with
  | nil => rfl
  | cons c rest ih =>
      by_cases hc : isBlank c = true
      · rw [weigh_cons_of_isBlank hc, ih]
      · rw [Bool.not_eq_true] at hc
        rw [weigh_cons_of_not_isBlank hc, weigh_cons_of_not_isBlank hc, weighAfter_weighAfter]

theorem signFree_weighAfter {text : List Char} (h : SignFree text) (last : Char) (gap : Bool)
    (hmeet : gap = false → ∀ d ∈ text.head?, ¬ Clash last d) :
    SignFree (weighAfter last gap text) ∧
      ∀ d ∈ (weighAfter last gap text).head?, ¬ Clash last d := by
  induction text generalizing last gap with
  | nil => exact ⟨h, by simp [weighAfter]⟩
  | cons c rest ih =>
      obtain ⟨hbang, hpair, hrest⟩ := (signFree_cons c rest).mp h
      by_cases hc : isBlank c = true
      · rw [weighAfter_blank hc]
        exact ih hrest last true (by simp)
      · rw [Bool.not_eq_true] at hc
        have hnext := ih hrest c false (fun _ => hpair)
        have hself : SignFree (c :: weighAfter c false rest) :=
          (signFree_cons _ _).mpr ⟨hbang, hnext.2, hnext.1⟩
        simp only [weighAfter, hc, Bool.false_eq_true, if_false]
        split
        · refine ⟨hself.cons (Or.inl (by decide)), ?_⟩
          rintro d ⟨⟩
          exact not_clash_blank_right (by decide) last
        · next hdiffer =>
            refine ⟨hself, ?_⟩
            rintro d ⟨⟩ hclash
            cases gap with
            | false => exact hmeet rfl c rfl hclash
            | true =>
                -- signs that clash weigh alike, so a gap between them would have stayed
                obtain ⟨hleft, hright⟩ := isPlain_of_clash hclash
                exact hdiffer (by rw [hleft, hright]; rfl)

theorem signFree_weigh {text : List Char} (h : SignFree text) : SignFree (weigh text) := by
  induction text with
  | nil => exact h
  | cons c rest ih =>
      obtain ⟨hbang, hpair, hrest⟩ := (signFree_cons c rest).mp h
      by_cases hc : isBlank c = true
      · rw [weigh_cons_of_isBlank hc]
        exact ih hrest
      · rw [Bool.not_eq_true] at hc
        rw [weigh_cons_of_not_isBlank hc]
        obtain ⟨hafter, hmeet⟩ := signFree_weighAfter hrest c false (fun _ => hpair)
        exact (signFree_cons _ _).mpr ⟨hbang, hmeet, hafter⟩

theorem noTrailingBlank_weighAfter (last : Char) (gap : Bool) (text : List Char) :
    NoTrailingBlank (weighAfter last gap text) := by
  induction text generalizing last gap with
  | nil => simp [NoTrailingBlank, weighAfter]
  | cons c rest ih =>
      by_cases hc : isBlank c = true
      · rw [weighAfter_blank hc]
        exact ih last true
      · rw [Bool.not_eq_true] at hc
        rw [weighAfter_cons_of_not_isBlank hc]
        intro d hd
        rw [List.getLast?_append] at hd
        cases hlast : (weighAfter c false rest).getLast? with
        | some e =>
            rw [hlast] at hd
            cases hd
            exact ih c false d hlast
        | none =>
            have hsingle : (weighAfter last gap [c]).getLast? = some c := by
              simp only [weighAfter, hc, Bool.false_eq_true, if_false]
              split <;> rfl
            rw [hlast, hsingle] at hd
            cases hd
            exact hc

theorem trimmed_weigh (text : List Char) : Trimmed (weigh text) := by
  induction text with
  | nil => simp [weigh, trimStart, Trimmed, NoLeadingBlank, NoTrailingBlank]
  | cons c rest ih =>
      by_cases hc : isBlank c = true
      · rwa [weigh_cons_of_isBlank hc]
      · rw [Bool.not_eq_true] at hc
        rw [weigh_cons_of_not_isBlank hc]
        refine ⟨by simpa [NoLeadingBlank] using hc, ?_⟩
        intro d hd
        rw [List.getLast?_cons] at hd
        cases hlast : (weighAfter c false rest).getLast? with
        | none =>
            rw [hlast] at hd
            cases hd
            exact hc
        | some e =>
            rw [hlast] at hd
            cases hd
            exact noTrailingBlank_weighAfter c false rest _ hlast

theorem lineFeed_notMem_weighAfter (last : Char) (gap : Bool) (text : List Char) :
    '\n' ∉ weighAfter last gap text := by
  induction text generalizing last gap with
  | nil => exact List.not_mem_nil
  | cons c rest ih =>
      by_cases hc : isBlank c = true
      · rw [weighAfter_blank hc]
        exact ih last true
      · have hne : '\n' ≠ c := by
          rintro rfl
          exact hc (by decide)
        rw [Bool.not_eq_true] at hc
        simp only [weighAfter, hc, Bool.false_eq_true, if_false]
        split
        · simp [hne, ih c false]
        · simp [hne, ih c false]

/-- A weighed text is one line. -/
theorem lineFeed_notMem_weigh (text : List Char) : '\n' ∉ weigh text := by
  induction text with
  | nil => exact List.not_mem_nil
  | cons c rest ih =>
      by_cases hc : isBlank c = true
      · rwa [weigh_cons_of_isBlank hc]
      · have hne : '\n' ≠ c := by
          rintro rfl
          exact hc (by decide)
        rw [Bool.not_eq_true] at hc
        rw [weigh_cons_of_not_isBlank hc]
        simp [hne, lineFeed_notMem_weighAfter]

/-! Normal forms -/

theorem signFree_normalChars (source : List Char) : SignFree (normalChars source) :=
  signFree_weigh (signFree_spellOut source)

theorem trimmed_normalChars (source : List Char) : Trimmed (normalChars source) :=
  trimmed_weigh _

/-- A normal form is its own normal form. -/
theorem normalChars_normalChars (source : List Char) :
    normalChars (normalChars source) = normalChars source := by
  rw [normalChars, spellOut_of_signFree (signFree_normalChars source), normalChars, weigh_weigh]

theorem toList_normalize (source : String) :
    (normalize source).toList = normalChars source.toList := by
  rw [normalize, String.toList_ofList]

theorem normalize_normalize (source : String) :
    normalize (normalize source) = normalize source := by
  rw [normalize, toList_normalize, normalChars_normalChars, normalize]

theorem signFree_of_all_isPlain {text : List Char} (h : text.all isPlain = true) :
    SignFree text := by
  induction text with
  | nil => exact ⟨by simp, .nil⟩
  | cons c rest ih =>
      rw [List.all_cons, Bool.and_eq_true] at h
      exact (ih h.2).cons (Or.inr h.1)

theorem weigh_of_not_isBlank {text : List Char} (h : ∀ c ∈ text, isBlank c = false) :
    weigh text = text := by
  have hafter (last : Char) : weighAfter last false text = text := by
    induction text generalizing last with
    | nil => rfl
    | cons c rest ih =>
        rw [weighAfter]
        simp [h c (by simp), ih (fun d hd => h d (by simp [hd])) c]
  cases text with
  | nil => rfl
  | cons c rest =>
      rw [← weighAfter_false_cons (h c (by simp)) c, hafter]

/-- A text of word characters is its own normal form. -/
theorem normalChars_of_all_isPlain {text : List Char} (h : text.all isPlain = true) :
    normalChars text = text := by
  rw [normalChars, spellOut_of_signFree (signFree_of_all_isPlain h), weigh_of_not_isBlank]
  intro c hc
  exact isBlank_eq_false_of_isPlain (List.all_eq_true.mp h c hc)

theorem normalize_of_isPlainWord {name : String} (h : isPlainWord name = true) :
    normalize name = name := by
  rw [isPlainWord, Bool.and_eq_true] at h
  rw [normalize, normalChars_of_all_isPlain h.2, String.ofList_toList]

/-- The normal form of two texts with a blank between them. -/
theorem normalChars_append_blank (before after : List Char) :
    normalChars (before ++ ' ' :: after) = glue (normalChars before) (normalChars after) := by
  have hrest : spellOut (' ' :: after) = ' ' :: spellOut after := by
    apply spellOut_cons (by decide)
    intro d _
    exact not_clash_blank_left (by decide) d
  have hmeet : ∀ x ∈ before.getLast?, ∀ y ∈ (' ' :: after).head?, ¬ Clash x y := by
    rintro x _ y ⟨⟩
    exact not_clash_blank_right (by decide) x
  rw [normalChars, spellOut_append hmeet, hrest, weigh_append_blank (by decide), normalChars,
    normalChars]

end Switchboard.Spelling
