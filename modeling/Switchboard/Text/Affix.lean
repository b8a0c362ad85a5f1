/-!
Texts with a known beginning: what is left of a text behind a prefix.
-/

namespace Switchboard.Text

/-- The rest of a text after a prefix. -/
def afterPrefix? : List Char → List Char → Option (List Char)
  | [], text => some text
  | p :: head, c :: text => if p = c then afterPrefix? head text else none
  | _ :: _, [] => none

/-- The rest of a text after as many copies of a prefix as it starts with; the first
argument bounds them. -/
def afterPrefixes (head : List Char) : Nat → List Char → List Char
  | 0, text => text
  | bound + 1, text =>
      match afterPrefix? head text with
      | some rest => afterPrefixes head bound rest
      | none => text

theorem eq_append_of_afterPrefix? {head text rest : List Char}
    (h : afterPrefix? head text = some rest) : text = head ++ rest := by
  induction head generalizing text with
  | nil => simpa [afterPrefix?] using h
  | cons p head ih =>
      cases text with
      | nil => simp [afterPrefix?] at h
      | cons c text =>
          by_cases hpc : p = c
          · simp only [afterPrefix?, hpc, if_true] at h
            simp [hpc, ih h]
          · simp [afterPrefix?, hpc] at h

theorem afterPrefix?_append (head rest : List Char) :
    afterPrefix? head (head ++ rest) = some rest := by
  induction head with
  | nil => rfl
  | cons p head ih => simp [afterPrefix?, ih]

theorem afterPrefix?_eq_some_iff {head text rest : List Char} :
    afterPrefix? head text = some rest ↔ text = head ++ rest := by
  constructor
  · exact eq_append_of_afterPrefix?
  · rintro rfl
    exact afterPrefix?_append head rest

end Switchboard.Text
