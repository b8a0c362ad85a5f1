import Mathlib
import Switchboard.Proofs.Number.Leading
import Switchboard.Registry.Builtin
import Switchboard.Value.Equality

/-!
What tests can tell about equal values. Equal values are of one kind, and equal numbers are the
same number or both zero; the texts of the two zeros differ, but both start with a number, as the
texts of all numbers but NaN do. The
text of an array starts with a number if and only if that of its first item does, as no number
goes on over a comma. So every built-in condition takes equal values for the same, and an object
has equal entries under the same keys, in whatever order the keys were written.
-/

namespace Switchboard

namespace Number

theorem takeWhile_isDigit_append_comma (text rest : List Char) :
    (text ++ ',' :: rest).takeWhile Char.isDigit = text.takeWhile Char.isDigit := by
  induction text with
  | nil => rfl
  | cons c text ih =>
      rw [List.cons_append, List.takeWhile_cons, List.takeWhile_cons, ih]

theorem dropWhile_isDigit_append_comma (text rest : List Char) :
    (text ++ ',' :: rest).dropWhile Char.isDigit =
      text.dropWhile Char.isDigit ++ ',' :: rest := by
  induction text with
  | nil => rfl
  | cons c text ih =>
      rw [List.cons_append, List.dropWhile_cons, List.dropWhile_cons]
      split
      · exact ih
      · rfl

theorem signPrefix_append_comma (text rest : List Char) :
    signPrefix (text ++ ',' :: rest) = signPrefix text := by
  cases text with
  | nil => rfl
  | cons c text =>
      rw [List.cons_append]
      unfold signPrefix
      split <;> split <;> simp_all

theorem length_signPrefix_le (text : List Char) : (signPrefix text).length ≤ text.length := by
  unfold signPrefix
  split <;> simp

theorem fractionPrefix_append_comma (text rest : List Char) :
    fractionPrefix (text ++ ',' :: rest) = fractionPrefix text := by
  cases text with
  | nil => rfl
  | cons c text =>
      by_cases hpoint : c = '.'
      · rw [hpoint, List.cons_append, fractionPrefix, fractionPrefix,
          takeWhile_isDigit_append_comma]
      · simp [fractionPrefix, hpoint]

theorem length_fractionPrefix_le (text : List Char) :
    (fractionPrefix text).length ≤ text.length := by
  unfold fractionPrefix
  split
  · exact Nat.succ_le_succ (List.takeWhile_prefix _).length_le
  · exact Nat.zero_le _

theorem exponentPrefix_append_comma (text rest : List Char) :
    exponentPrefix (text ++ ',' :: rest) = exponentPrefix text := by
  cases text with
  | nil => rfl
  | cons mark tail =>
      simp only [List.cons_append, exponentPrefix, signPrefix_append_comma,
        List.drop_append_of_le_length (length_signPrefix_le tail),
        takeWhile_isDigit_append_comma]

theorem decimalPrefix?_append_comma (text rest : List Char) :
    decimalPrefix? (text ++ ',' :: rest) = decimalPrefix? text := by
  simp only [decimalPrefix?, takeWhile_isDigit_append_comma, dropWhile_isDigit_append_comma,
    fractionPrefix_append_comma, List.drop_append_of_le_length (length_fractionPrefix_le _),
    exponentPrefix_append_comma]

theorem isPrefixOf_append_comma {word : List Char} (h : ',' ∉ word) (text rest : List Char) :
    word.isPrefixOf (text ++ ',' :: rest) = word.isPrefixOf text := by
  induction word generalizing text with
  | nil => rfl
  | cons c word ih =>
      rw [List.mem_cons, not_or] at h
      cases text with
      | nil => simp [List.isPrefixOf, Ne.symm h.1]
      | cons d text => rw [List.cons_append, List.isPrefixOf, List.isPrefixOf, ih h.2]

/-- The number at the start of a text does not go on over a comma. -/
theorem leading?_append_comma (text rest : List Char) :
    leading? (text ++ ',' :: rest) = leading? text := by
  have hcomma : Text.NoLeadingBlank (',' :: rest) := by
    rintro c ⟨⟩
    decide
  simp only [leading?, Text.trimStart_append text hcomma, signPrefix_append_comma,
    List.drop_append_of_le_length (length_signPrefix_le _),
    isPrefixOf_append_comma (by decide : ',' ∉ "Infinity".toList), decimalPrefix?_append_comma]

theorem isZero_iff {n : Number} :
    n.isZero = true ↔ n.exponentField = 0 ∧ n.fraction = 0 := by
  simp [isZero]

theorem twoTo_pos (exponent : Nat) : 0 < twoTo exponent :=
  Nat.two_pow_pos exponent

/-- A zero is whole and below every positive bound. -/
theorem isWhole_of_isZero {n : Number} (h : n.isZero = true) {bound : Nat} (hbound : 0 < bound) :
    n.isWhole = true ∧ n.isBelow bound = true := by
  obtain ⟨hexponent, hfraction⟩ := isZero_iff.mp h
  have hunits : n.units = 0 := by simp [units, significand, hexponent, hfraction]
  have hpositive : 0 < bound * unitsPerOne := Nat.mul_pos hbound (twoTo_pos 1074)
  simp [isWhole, isBelow, isFinite, hexponent, hunits, hpositive]

/-- Equal numbers are numbers, and the same one or both zero. -/
theorem eq_or_isZero_of_equal {m n : Number} (h : m.equal n = true) :
    (m.isNaN = false ∧ n.isNaN = false) ∧
      (m = n ∨ (m.isZero = true ∧ n.isZero = true)) := by
  simp only [equal, Bool.and_eq_true, Bool.not_eq_true', Bool.or_eq_true, beq_iff_eq] at h
  refine ⟨h.1, h.2.imp (fun hbits => ?_) id⟩
  cases m
  cases n
  exact congrArg Number.mk hbits

end Number

namespace Value

open Registry (isChar isNumeric isInt)

/-- Equal values are of one kind. -/
theorem kind_of_equal {v w : Value} (h : v.equal w = true) : v.kind = w.kind := by
  unfold equal at h
  split at h <;> first | rfl | cases h

/-- The text of an array starts as that of its first item does. -/
theorem leading?_intercalate (text : List Char) (texts : List (List Char)) :
    Number.leading? (List.intercalate [','] (text :: texts)) = Number.leading? text := by
  cases texts with
  | nil => simp [List.intercalate]
  | cons next texts =>
      have hsplit : List.intercalate [','] (text :: next :: texts) =
          text ++ ',' :: List.intercalate [','] (next :: texts) := by
        simp [List.intercalate]
      rw [hsplit, Number.leading?_append_comma]

/-- The text of an array starts with a number if that of its first item does; an unset item
has none. -/
theorem leading?_plainText_array (x : Value) (xs : List Value) :
    Number.leading? (array (x :: xs)).plainText =
      if x.isUnset then none else Number.leading? x.plainText := by
  have hfirst : Number.leading? (array (x :: xs)).plainText =
      Number.leading? (if x.isUnset then [] else x.plainText) :=
    leading?_intercalate _ (plainItems xs)
  rw [hfirst]
  split <;> rfl

theorem isUnset_iff {v : Value} :
    v.isUnset = true ↔ v.kind = .undefined ∨ v.kind = .null := by
  cases v <;> simp [isUnset, kind]

theorem isUnset_of_kind_eq {v w : Value} (h : v.kind = w.kind) : v.isUnset = w.isUnset := by
  rw [Bool.eq_iff_iff, isUnset_iff, isUnset_iff, h]

/-- Whether a value's text starts with a number is the same for equal values. -/
theorem leading?_plainText_of_equal (v w : Value) (h : v.equal w = true) :
    (Number.leading? v.plainText).isSome = (Number.leading? w.plainText).isSome := by
  match v, w, h with
  | .undefined, .undefined, _ => rfl
  | .null, .null, _ => rfl
  | .boolean a, .boolean b, h =>
      obtain rfl : a = b := by simpa [equal] using h
      rfl
  | .number m, .number n, h =>
      change (Number.leading? m.text).isSome = (Number.leading? n.text).isSome
      obtain ⟨⟨hm, hn⟩, _⟩ := Number.eq_or_isZero_of_equal h
      rw [Number.isSome_leading?_text, Number.isSome_leading?_text, hm, hn]
  | .string s, .string t, h =>
      obtain rfl : s = t := by simpa [equal] using h
      rfl
  | .regexp s, .regexp t, h =>
      obtain rfl : s = t := by simpa [equal] using h
      rfl
  | .array [], .array [], _ => rfl
  | .array (x :: xs), .array (y :: ys), h =>
      obtain ⟨hfirst, _⟩ : x.equal y = true ∧ equalItems xs ys = true := by
        simpa only [equal, equalItems, Bool.and_eq_true] using h
      -- the texts of the later items may differ, but no number reaches them
      have hrest := leading?_plainText_of_equal x y hfirst
      rw [leading?_plainText_array, leading?_plainText_array, isUnset_of_kind_eq (kind_of_equal hfirst)]
      split
      · rfl
      · exact hrest
  | .object _, .object _, _ => rfl
  | .function f, .function g, _ => rfl

theorem isChar_of_equal {v w : Value} (h : v.equal w = true) : isChar v = isChar w := by
  unfold equal at h
  split at h <;> first | rfl | cases h | skip
  · next s t =>
      obtain rfl : s = t := by simpa using h
      rfl

theorem isInt_of_equal {v w : Value} (h : v.equal w = true) : isInt v = isInt w := by
  unfold equal at h
  split at h <;> first | rfl | cases h | skip
  · next m n =>
      rcases (Number.eq_or_isZero_of_equal h).2 with rfl | ⟨hm, hn⟩
      · rfl
      · have hbound : 0 < tenTo 21 := Nat.pow_pos (Nat.succ_pos 9)
        obtain ⟨hwhole, hbelow⟩ := Number.isWhole_of_isZero hm hbound
        obtain ⟨hwhole', hbelow'⟩ := Number.isWhole_of_isZero hn hbound
        rw [isInt, isInt, hwhole, hbelow, hwhole', hbelow']

theorem isNumeric_of_equal {v w : Value} (h : v.equal w = true) : isNumeric v = isNumeric w := by
  have hleading := leading?_plainText_of_equal v w h
  unfold equal at h
  split at h <;> first | exact hleading | cases h | skip
  · next m n =>
      obtain ⟨⟨hm, hn⟩, _⟩ := Number.eq_or_isZero_of_equal h
      rw [isNumeric, isNumeric, hm, hn]

/-- Equal arrays have equal items, one by one. -/
theorem equalItems_iff {xs ys : List Value} :
    equalItems xs ys = true ↔ List.Forall₂ (fun x y => x.equal y = true) xs ys := by
  induction xs generalizing ys with
  | nil => cases ys <;> simp [equalItems]
  | cons x xs ih => cases ys <;> simp [equalItems, ih]

theorem equalFields_iff {fields table : Table Value} :
    equalFields fields table = true ↔ ∀ entry ∈ fields, ∃ other,
      Table.get? entry.1 table = some other ∧ entry.2.equal other = true := by
  induction fields with
  | nil => simp [equalFields]
  | cons field rest ih =>
      obtain ⟨key, entry⟩ := field
      rw [equalFields, Bool.and_eq_true, ih, List.forall_mem_cons]
      refine and_congr ?_ Iff.rfl
      cases Table.get? key table <;> simp

end Value

end Switchboard
