import Switchboard.Number.Leading
import Switchboard.Proofs.Characters

/-!
Which texts start with a number. Behind blanks and at most one sign there stands a digit, a point
and a digit, or an infinity; that is all it takes, for the decimal that is cut off the text is
one of a small grammar, and every decimal of the grammar can be read. The texts of numbers are
positional, digits with perhaps a point and digits behind, so all of them start with a number
but the text of NaN.
-/

namespace Switchboard.Number

/-! The grammar of decimals -/

/-- Digits, and at least one. -/
def IsDigits (text : List Char) : Prop :=
  text ≠ [] ∧ ∀ c ∈ text, c.isDigit = true

/-- A sign, or none. -/
inductive IsSign : List Char → Prop
  | none : IsSign []
  | plus : IsSign ['+']
  | minus : IsSign ['-']

/-- A point and any digits behind it, or nothing. -/
inductive IsFraction : List Char → Prop
  | none : IsFraction []
  | some {digits : List Char} (h : ∀ c ∈ digits, c.isDigit = true) : IsFraction ('.' :: digits)

/-- A mark, a sign or none, and digits; or nothing. -/
inductive IsExponent : List Char → Prop
  | none : IsExponent []
  | some {mark : Char} {sign digits : List Char} (hmark : mark = 'e' ∨ mark = 'E')
      (hsign : IsSign sign) (hdigits : IsDigits digits) : IsExponent (mark :: (sign ++ digits))

/-- An unsigned decimal: digits, with a fraction or not, or a point and digits; and an exponent
or none. -/
inductive IsDecimal : List Char → Prop
  | whole {whole fraction exponent : List Char} (hwhole : IsDigits whole)
      (hfraction : IsFraction fraction) (hexponent : IsExponent exponent) :
      IsDecimal (whole ++ fraction ++ exponent)
  | point {digits exponent : List Char} (hdigits : IsDigits digits)
      (hexponent : IsExponent exponent) : IsDecimal ('.' :: digits ++ exponent)

/-- No digit stands at the start of a text. -/
def NoLeadingDigit (text : List Char) : Prop :=
  ∀ c ∈ text.head?, c.isDigit = false

theorem IsDigits.exists_cons {text : List Char} (h : IsDigits text) :
    ∃ d tail, text = d :: tail ∧ d.isDigit = true := by
  obtain ⟨hne, hall⟩ := h
  obtain ⟨d, tail, rfl⟩ := List.exists_cons_of_ne_nil hne
  exact ⟨d, tail, rfl, hall d List.mem_cons_self⟩

theorem isDigit_of_mem_takeWhile {text : List Char} :
    ∀ c ∈ text.takeWhile Char.isDigit, c.isDigit = true :=
  fun _ hc => List.mem_takeWhile_imp hc

theorem takeWhile_isDigit_append {digits rest : List Char} (h : ∀ c ∈ digits, c.isDigit = true)
    (hrest : NoLeadingDigit rest) : (digits ++ rest).takeWhile Char.isDigit = digits := by
  rw [List.takeWhile_append_of_pos h]
  cases rest with
  | nil => simp
  | cons c rest => simp [hrest c rfl]

theorem dropWhile_isDigit_append {digits rest : List Char} (h : ∀ c ∈ digits, c.isDigit = true)
    (hrest : NoLeadingDigit rest) : (digits ++ rest).dropWhile Char.isDigit = rest := by
  rw [List.dropWhile_append_of_pos h]
  cases rest with
  | nil => rfl
  | cons c rest => simp [hrest c rfl]

theorem IsExponent.noLeadingDigit {exponent : List Char} (h : IsExponent exponent) :
    NoLeadingDigit exponent := by
  cases h with
  | none => rintro c ⟨⟩
  | some hmark =>
      rintro c ⟨⟩
      rcases hmark with rfl | rfl <;> decide

theorem IsFraction.noLeadingDigit_append {fraction exponent : List Char} (h : IsFraction fraction)
    (hexponent : IsExponent exponent) : NoLeadingDigit (fraction ++ exponent) := by
  cases h with
  | none => exact hexponent.noLeadingDigit
  | some =>
      rintro c ⟨⟩
      decide

/-! Cutting a decimal off -/

theorem isSign_signPrefix (text : List Char) : IsSign (signPrefix text) := by
  unfold signPrefix
  split
  · exact .plus
  · exact .minus
  · exact .none

theorem signPrefix_append_drop (text : List Char) :
    signPrefix text ++ text.drop (signPrefix text).length = text := by
  unfold signPrefix
  split <;> rfl

theorem isFraction_fractionPrefix (text : List Char) : IsFraction (fractionPrefix text) := by
  unfold fractionPrefix
  split
  · exact .some isDigit_of_mem_takeWhile
  · exact .none

theorem isExponent_exponentPrefix (text : List Char) : IsExponent (exponentPrefix text) := by
  cases text with
  | nil => exact .none
  | cons mark tail =>
      rw [exponentPrefix]
      split
      · next hmark =>
          rw [Bool.or_eq_true, decide_eq_true_eq, decide_eq_true_eq] at hmark
          dsimp only
          split
          · exact .none
          · next hdigits =>
              rw [List.isEmpty_iff] at hdigits
              exact .some hmark (isSign_signPrefix tail) ⟨hdigits, isDigit_of_mem_takeWhile⟩
      · exact .none

/-- What is cut off a text is a decimal. -/
theorem isDecimal_of_decimalPrefix? {text decimal : List Char}
    (h : decimalPrefix? text = some decimal) : IsDecimal decimal := by
  rw [decimalPrefix?] at h
  split at h
  · cases h
  · next hdigits =>
      rw [Bool.and_eq_true, not_and, List.isEmpty_iff, decide_eq_true_eq] at hdigits
      cases h
      by_cases hwhole : text.takeWhile Char.isDigit = []
      · rw [hwhole, List.nil_append]
        have hlong := hdigits hwhole
        cases hfraction : fractionPrefix (text.dropWhile Char.isDigit) with
        | nil => simp [hfraction] at hlong
        | cons c digits =>
            have hpoint := isFraction_fractionPrefix (text.dropWhile Char.isDigit)
            rw [hfraction] at hpoint hlong
            cases hpoint with
            | some hall =>
                refine .point ⟨?_, hall⟩ (isExponent_exponentPrefix _)
                rintro rfl
                exact hlong (Nat.le_refl 1)
      · exact .whole ⟨hwhole, isDigit_of_mem_takeWhile⟩ (isFraction_fractionPrefix _)
          (isExponent_exponentPrefix _)

/-- A decimal is cut off a text that starts with a digit, or with a point and a digit. -/
theorem isSome_decimalPrefix?_iff {text : List Char} : (decimalPrefix? text).isSome = true ↔
    (∃ d tail, text = d :: tail ∧ d.isDigit = true) ∨
      ∃ d tail, text = '.' :: d :: tail ∧ d.isDigit = true := by
  cases text with
  | nil => simp [decimalPrefix?, fractionPrefix]
  | cons c rest =>
      by_cases hdigit : c.isDigit = true
      · simp [decimalPrefix?, hdigit]
      · by_cases hpoint : c = '.'
        · subst hpoint
          cases rest with
          | nil => simp [decimalPrefix?, fractionPrefix]
          | cons d rest =>
              by_cases hd : d.isDigit = true <;> simp [decimalPrefix?, fractionPrefix, hdigit, hd]
        · have hfraction : fractionPrefix (c :: rest) = [] := by simp [fractionPrefix, hpoint]
          simp [decimalPrefix?, hfraction, hdigit, hpoint]

/-! Reading a decimal -/

theorem isSome_readExponent? {sign digits : List Char} (hsign : IsSign sign)
    (hdigits : IsDigits digits) : (readExponent? (sign ++ digits)).isSome = true := by
  have hread (negative : Bool) : (if digits.isEmpty || !digits.all Char.isDigit then none
      else some (if negative then -(digitsValue 0 digits : Int) else digitsValue 0 digits)).isSome =
        true := by
    have hempty : digits.isEmpty = false := by
      rw [Bool.eq_false_iff, Ne, List.isEmpty_iff]
      exact hdigits.1
    rw [hempty, List.all_eq_true.mpr hdigits.2]
    rfl
  cases hsign with
  | plus => exact hread false
  | minus => exact hread true
  | none =>
      obtain ⟨d, tail, rfl, hd⟩ := hdigits.exists_cons
      have hsigned (c : Char) (hc : c.isDigit = false) (rest : List Char) : d :: tail ≠ c :: rest := by
        rintro ⟨⟩
        rw [hc] at hd
        cases hd
      rw [List.nil_append, readExponent?]
      · exact hread false
      · exact hsigned '+' rfl
      · exact hsigned '-' rfl

/-- Digits, a fraction and an exponent are read, if there is a digit before or behind the
point. -/
theorem isSome_readDecimal?_append (negative : Bool) {whole fraction exponent : List Char}
    (hwhole : ∀ c ∈ whole, c.isDigit = true) (hfraction : IsFraction fraction)
    (hdigit : whole ≠ [] ∨ 1 < fraction.length) (hexponent : IsExponent exponent) :
    (readDecimal? negative (whole ++ (fraction ++ exponent))).isSome = true := by
  have hstop := hfraction.noLeadingDigit_append hexponent
  have htake := takeWhile_isDigit_append hwhole hstop
  have hdrop := dropWhile_isDigit_append hwhole hstop
  rw [readDecimal?, htake, hdrop]
  cases hfraction with
  | none =>
      have hsome : whole.isEmpty = false := by simpa using hdigit
      -- an exponent does not start with a point
      cases hexponent with
      | none => simp [hsome]
      | some hmark hsign hdigits =>
          have hread := isSome_readExponent? hsign hdigits
          rcases hmark with rfl | rfl <;> simp [hsome, hread]
  | @some digits hdigits =>
      have hsome : ¬ (whole.isEmpty && digits.isEmpty) = true := by
        simpa [List.length_pos_iff, or_iff_not_imp_left] using hdigit
      have hafter := hexponent.noLeadingDigit
      simp only [List.cons_append, takeWhile_isDigit_append hdigits hafter,
        dropWhile_isDigit_append hdigits hafter]
      rw [if_neg hsome]
      cases hexponent with
      | none => rfl
      | some hmark hsign hdigits =>
          have hread := isSome_readExponent? hsign hdigits
          rcases hmark with rfl | rfl <;> simpa using hread

/-- Every decimal is read. -/
theorem IsDecimal.isSome_readDecimal? {decimal : List Char} (h : IsDecimal decimal)
    (negative : Bool) : (readDecimal? negative decimal).isSome = true := by
  cases h with
  | whole hwhole hfraction hexponent =>
      rw [List.append_assoc]
      exact isSome_readDecimal?_append negative hwhole.2 hfraction (Or.inl hwhole.1) hexponent
  | @point digits _ hdigits hexponent =>
      have hlong : 1 < ('.' :: digits).length :=
        Nat.succ_lt_succ (List.length_pos_iff.mpr hdigits.1)
      have hread := isSome_readDecimal?_append negative (List.forall_mem_nil _)
        (.some hdigits.2) (Or.inr hlong) hexponent
      rwa [List.nil_append] at hread

theorem IsDecimal.exists_cons {decimal : List Char} (h : IsDecimal decimal) :
    ∃ c tail, decimal = c :: tail ∧ (c.isDigit = true ∨ c = '.') := by
  cases h with
  | whole hwhole =>
      obtain ⟨d, tail, rfl, hd⟩ := hwhole.exists_cons
      exact ⟨d, _, rfl, Or.inl hd⟩
  | point => exact ⟨'.', _, rfl, Or.inr rfl⟩

theorem toLower_of_isDigit {c : Char} (h : c.isDigit = true) : c.toLower = c := by
  have hupper : ¬ (c.val ≥ 'A'.val ∧ c.val ≤ 'Z'.val) := by
    simp only [Char.isDigit, Bool.and_eq_true, decide_eq_true_eq, ge_iff_le,
      UInt32.le_iff_toNat_le] at *
    rintro ⟨hletter, -⟩
    have hdigit := h.2
    have hA : 'A'.val.toNat = 65 := rfl
    have h9 : '9'.val.toNat = 57 := rfl
    omega
  exact dif_neg hupper

/-- A decimal is no sign and no word, so it is read as the decimal that it is. -/
theorem read?_of_isDecimal {decimal : String} (h : IsDecimal decimal.toList) :
    read? decimal = readDecimal? false decimal.toList := by
  obtain ⟨c, tail, heq, hc⟩ := h.exists_cons
  have hlower : c.toLower = c := hc.elim toLower_of_isDigit (fun hpoint => hpoint ▸ rfl)
  have hother (d : Char) (hd : d.isDigit = false ∧ d ≠ '.') : c ≠ d := by
    rintro rfl
    exact hc.elim (fun hdigit => by rw [hd.1] at hdigit; cases hdigit) hd.2
  have hplus := hother '+' (by decide)
  have hminus := hother '-' (by decide)
  have hi := hother 'i' (by decide)
  have hn := hother 'n' (by decide)
  simp [read?, heq, hplus, hminus, hlower, hi, hn]

/-- The number reader takes every decimal. -/
theorem IsDecimal.isSome_read? {decimal : String} (h : IsDecimal decimal.toList) :
    (read? decimal).isSome = true := by
  rw [read?_of_isDecimal h]
  exact h.isSome_readDecimal? false

/-! Texts that start with a number -/

/-- What an unsigned number starts with. -/
inductive StartsUnsigned : List Char → Prop
  | digit {d : Char} (hd : d.isDigit = true) (tail : List Char) : StartsUnsigned (d :: tail)
  | point {d : Char} (hd : d.isDigit = true) (tail : List Char) : StartsUnsigned ('.' :: d :: tail)
  | infinity (tail : List Char) : StartsUnsigned ("Infinity".toList ++ tail)

/-- Blanks, a sign or none, and the start of an unsigned number. -/
def StartsNumber (text : List Char) : Prop :=
  ∃ blanks sign rest, text = blanks ++ (sign ++ rest) ∧ (∀ c ∈ blanks, Text.isBlank c = true) ∧
    IsSign sign ∧ StartsUnsigned rest

theorem isBlank_eq_false_of_isDigit {c : Char} (h : c.isDigit = true) : Text.isBlank c = false := by
  apply Text.isBlank_eq_false_of_isPlain
  simp [Text.isPlain, Char.isAlphanum, h]

theorem StartsUnsigned.exists_cons {text : List Char} (h : StartsUnsigned text) :
    ∃ c tail, text = c :: tail ∧ Text.isBlank c = false ∧ c ≠ '+' ∧ c ≠ '-' := by
  cases h with
  | @digit d hd tail =>
      refine ⟨d, tail, rfl, isBlank_eq_false_of_isDigit hd, ?_, ?_⟩ <;>
        (rintro rfl; cases hd)
  | point hd tail => exact ⟨'.', _, rfl, by decide, by decide, by decide⟩
  | infinity tail => exact ⟨'I', _, rfl, by decide, by decide, by decide⟩

theorem StartsUnsigned.signPrefix_append {sign text : List Char} (h : StartsUnsigned text)
    (hsign : IsSign sign) : signPrefix (sign ++ text) = sign := by
  obtain ⟨c, tail, rfl, _, hplus, hminus⟩ := h.exists_cons
  cases hsign with
  | none => simp [signPrefix, hplus, hminus]
  | plus => rfl
  | minus => rfl

theorem StartsUnsigned.trimStart_append {blanks sign text : List Char} (h : StartsUnsigned text)
    (hblanks : ∀ c ∈ blanks, Text.isBlank c = true) (hsign : IsSign sign) :
    Text.trimStart (blanks ++ (sign ++ text)) = sign ++ text := by
  obtain ⟨c, tail, rfl, hblank, _⟩ := h.exists_cons
  rw [Text.trimStart, List.dropWhile_append_of_pos hblanks]
  cases hsign with
  | none => exact List.dropWhile_cons_of_neg (by simp [hblank])
  | plus => rfl
  | minus => rfl

/-- A decimal can be cut off an unsigned number that is no infinity. -/
theorem startsUnsigned_iff {text : List Char} : StartsUnsigned text ↔
    "Infinity".toList.isPrefixOf text = true ∨ (decimalPrefix? text).isSome = true := by
  rw [isSome_decimalPrefix?_iff, List.isPrefixOf_iff_prefix]
  constructor
  · rintro (⟨hd, tail⟩ | ⟨hd, tail⟩ | tail)
    · exact Or.inr (Or.inl ⟨_, tail, rfl, hd⟩)
    · exact Or.inr (Or.inr ⟨_, tail, rfl, hd⟩)
    · exact Or.inl (List.prefix_append _ tail)
  · rintro (⟨tail, rfl⟩ | ⟨d, tail, rfl, hd⟩ | ⟨d, tail, rfl, hd⟩)
    · exact .infinity tail
    · exact .digit hd tail
    · exact .point hd tail

/-- There is a number at the start of a text if and only if the text starts like one. -/
theorem isSome_leading?_iff {text : List Char} :
    (leading? text).isSome = true ↔ StartsNumber text := by
  have hread (negative : Bool) (unsigned : List Char) :
      ((decimalPrefix? unsigned).bind (readDecimal? negative)).isSome =
        (decimalPrefix? unsigned).isSome := by
    cases hprefix : decimalPrefix? unsigned with
    | none => rfl
    | some decimal => exact (isDecimal_of_decimalPrefix? hprefix).isSome_readDecimal? negative
  have hunsigned : (leading? text).isSome = true ↔
      StartsUnsigned ((Text.trimStart text).drop (signPrefix (Text.trimStart text)).length) := by
    rw [startsUnsigned_iff, leading?]
    split
    · next hinfinity => exact iff_of_true rfl (Or.inl hinfinity)
    · next hinfinity => rw [hread, or_iff_right hinfinity]
  rw [hunsigned]
  constructor
  · intro hstart
    refine ⟨text.takeWhile Text.isBlank, _, _, ?_, fun _ => List.mem_takeWhile_imp,
      isSign_signPrefix (Text.trimStart text), hstart⟩
    rw [signPrefix_append_drop]
    exact List.takeWhile_append_dropWhile.symm
  · rintro ⟨blanks, sign, rest, rfl, hblanks, hsign, hstart⟩
    rw [hstart.trimStart_append hblanks hsign, hstart.signPrefix_append hsign, List.drop_left]
    exact hstart

/-! The texts of numbers -/

theorem isDigits_toDigits (value : Nat) : IsDigits (Nat.toDigits 10 value) :=
  ⟨Nat.toDigits_ne_nil, fun _ => Nat.isDigit_of_mem_toDigits (by decide) (by decide)⟩

theorem IsDigits.append {digits more : List Char} (h : IsDigits digits)
    (hmore : ∀ c ∈ more, c.isDigit = true) : IsDigits (digits ++ more) :=
  ⟨List.append_ne_nil_of_left_ne_nil h.1 _, List.forall_mem_append.mpr ⟨h.2, hmore⟩⟩

theorem isDigit_of_mem_replicate {count : Nat} :
    ∀ c ∈ List.replicate count '0', c.isDigit = true := by
  intro c hc
  rw [List.eq_of_mem_replicate hc]
  rfl

/-- Positional notation: digits, and a point and digits or not. -/
inductive IsPositional : List Char → Prop
  | whole {digits : List Char} (h : IsDigits digits) : IsPositional digits
  | point {digits places : List Char} (h : IsDigits digits) (hplaces : IsDigits places) :
      IsPositional (digits ++ '.' :: places)

theorem Decimal.isPositional_text (d : Decimal) : IsPositional d.text := by
  have hdigits := isDigits_toDigits d.digits
  rw [Decimal.text]
  dsimp only
  split
  · exact .whole (hdigits.append isDigit_of_mem_replicate)
  · next hnegative =>
      split
      · next hplaces =>
          refine .point ⟨?_, fun c hc => hdigits.2 c (List.mem_of_mem_take hc)⟩
            ⟨?_, fun c hc => hdigits.2 c (List.mem_of_mem_drop hc)⟩
          · rw [← List.length_pos_iff, List.length_take]
            omega
          · rw [← List.length_pos_iff, List.length_drop]
            omega
      · have hzero : IsDigits ['0'] := ⟨List.cons_ne_nil _ _, by simp⟩
        exact .point hzero ⟨List.append_ne_nil_of_right_ne_nil _ hdigits.1,
          List.forall_mem_append.mpr ⟨isDigit_of_mem_replicate, hdigits.2⟩⟩

theorem IsPositional.startsUnsigned {text : List Char} (h : IsPositional text) :
    StartsUnsigned text := by
  cases h with
  | whole hdigits | point hdigits =>
      obtain ⟨d, tail, rfl, hd⟩ := hdigits.exists_cons
      exact .digit hd _

/-- A finite number is shown as a minus or nothing before a positional notation. -/
theorem exists_text_of_isFinite {n : Number} (h : n.isFinite = true) :
    ∃ sign magnitude, n.text = sign ++ magnitude ∧ (sign = [] ∨ sign = ['-']) ∧
      IsPositional magnitude := by
  have hfield : n.exponentField ≠ 2047 := by simpa [isFinite] using h
  have hmagnitude : IsPositional (if n.isZero then ['0'] else n.shortest.text) := by
    split
    · exact .whole ⟨List.cons_ne_nil _ _, by simp⟩
    · exact n.shortest.isPositional_text
  refine ⟨if n.isNegative then ['-'] else [], _, ?_, ?_, hmagnitude⟩
  · cases hnegative : n.isNegative <;> simp [text, isNaN, isInfinite, hfield, hnegative]
  · cases n.isNegative <;> simp

theorem exists_text_of_isInfinite {n : Number} (h : n.isInfinite = true) :
    ∃ sign, n.text = sign ++ "Infinity".toList ∧ (sign = [] ∨ sign = ['-']) := by
  have hnumber : n.isNaN = false := by
    simp only [isInfinite, Bool.and_eq_true, beq_iff_eq] at h
    simp [isNaN, h]
  refine ⟨if n.isNegative then ['-'] else [], ?_, ?_⟩
  · cases hnegative : n.isNegative <;> simp [text, hnumber, h, hnegative]
  · cases n.isNegative <;> simp

theorem startsNumber_of_startsUnsigned {sign magnitude : List Char} (h : StartsUnsigned magnitude)
    (hsign : sign = [] ∨ sign = ['-']) : StartsNumber (sign ++ magnitude) := by
  refine ⟨[], sign, magnitude, rfl, List.forall_mem_nil _, ?_, h⟩
  rcases hsign with rfl | rfl
  · exact .none
  · exact .minus

theorem startsNumber_text {n : Number} (h : n.isNaN = false) : StartsNumber n.text := by
  cases hfinite : n.isFinite with
  | true =>
      obtain ⟨sign, magnitude, htext, hsign, hmagnitude⟩ := exists_text_of_isFinite hfinite
      rw [htext]
      exact startsNumber_of_startsUnsigned hmagnitude.startsUnsigned hsign
  | false =>
      have hinfinite : n.isInfinite = true := by
        have hfield : n.exponentField = 2047 := by simpa [isFinite] using hfinite
        have hfraction : n.fraction = 0 := by simpa [isNaN, hfield] using h
        simp [isInfinite, hfield, hfraction]
      obtain ⟨sign, htext, hsign⟩ := exists_text_of_isInfinite hinfinite
      rw [htext]
      exact startsNumber_of_startsUnsigned (.infinity []) hsign

/-- The texts of all numbers start with a number, but that of NaN. -/
theorem isSome_leading?_text (n : Number) : (leading? n.text).isSome = !n.isNaN := by
  cases h : n.isNaN with
  | false => exact isSome_leading?_iff.mpr (startsNumber_text h)
  | true =>
      rw [text, if_pos h]
      rfl

end Switchboard.Number
