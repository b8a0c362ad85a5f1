import Switchboard.Proofs.NormalForm
import Switchboard.Text.Affix

/-!
The normal spelling in passes. A text can be brought into its normal spelling by replacing one
pattern after the other: the four operators by keywords between spaces; then blanks between a
plain word character and one that is not, looked for on the right and on the left of the word;
then each run of blanks that is left, by a space; and at last the edges are trimmed. Each pass
goes from left to right over occurrences that do not overlap, takes as many blanks as it can,
and counts a blank as a character that is no word character, so that what a pass does to a run
of blanks depends on the length of the run too. But it depends on the run and its two
neighbours only, and so does what all passes do together: they weigh the run.
-/

namespace Switchboard.Spelling

open Text

/-- An occurrence of a pattern at the start of a text: what is written in its place, and the
text behind it. No pattern occurs in nothing. -/
structure Hit (text : List Char) where
  written : List Char
  after : List Char
  shorter : after.length < text.length

/-- What to look for at the start of a text. -/
abbrev Pattern : Type := (text : List Char) → Option (Hit text)

/-- A text with the occurrences of a pattern replaced, from left to right; the search goes on
behind each occurrence. -/
def rewrite (pattern : Pattern) : List Char → List Char
  | [] => []
  | c :: rest =>
      match pattern (c :: rest) with
      | some hit => hit.written ++ rewrite pattern hit.after
      | none => c :: rewrite pattern rest
termination_by text => text.length
decreasing_by
  · exact hit.shorter
  · exact Nat.lt_succ_self rest.length

/-- An operator that is written with a sign and perhaps others behind it, and the keyword that
is written in its place. -/
def operator (sign : Char) (others word : List Char) : Pattern := fun text =>
  match h : afterPrefix? (sign :: others) text with
  | some after => some
      { written := ' ' :: word ++ [' ']
        after := after
        shorter := by
          have hlength := congrArg List.length (eq_append_of_afterPrefix? h)
          rw [List.length_append, List.length_cons] at hlength
          omega }
  | none => none

/-- The first character of a text, if it is of a class, and the text behind it. -/
def first? (wanted : Char → Bool) : List Char → Option (Char × List Char)
  | [] => none
  | c :: after => if wanted c then some (c, after) else none

/-- The character of a class behind blanks, of which there is at least one, and the text behind
it. As many blanks as possible are passed over; the last of them can be the character itself. -/
def behindBlanks? (wanted : Char → Bool) : List Char → Option (Char × List Char)
  | [] => none
  | b :: rest =>
      if isBlank b then (behindBlanks? wanted rest).or (first? wanted rest) else none

theorem length_of_behindBlanks? {wanted : Char → Bool} {text after : List Char} {c : Char}
    (h : behindBlanks? wanted text = some (c, after)) : after.length < text.length := by
  induction text with
  | nil => cases h
  | cons b rest ih =>
      simp only [behindBlanks?] at h
      split at h
      · rcases Option.or_eq_some_iff.mp h with hlater | ⟨_, hfirst⟩
        · exact Nat.lt_succ_of_lt (ih hlater)
        · cases rest with
          | nil => cases hfirst
          | cons d tail =>
              rw [first?] at hfirst
              split at hfirst
              · cases hfirst
                exact Nat.lt_succ_of_lt (Nat.lt_succ_self _)
              · cases hfirst
      · cases h

/-- Two characters of given classes with blanks between them, which are dropped. -/
def gap (left right : Char → Bool) : Pattern
  | [] => none
  | c :: rest =>
      if left c then
        match h : behindBlanks? right rest with
        | some (d, after) => some
            { written := [c, d]
              after := after
              shorter := Nat.lt_succ_of_lt (length_of_behindBlanks? h) }
        | none => none
      else none

/-- A run of blanks, for which a space is written. -/
def blanks : Pattern
  | [] => none
  | c :: rest =>
      if isBlank c then some
        { written := [' ']
          after := trimStart rest
          shorter := Nat.lt_succ_of_le (trimStart_sublist rest).length_le }
      else none

/-- A text with all operators written as keywords. -/
def rewriteOperators (source : List Char) : List Char :=
  rewrite (operator '[' [']'] ['a', 'r', 'r', 'a', 'y']) <|
    rewrite (operator '!' [] ['n', 'o', 't']) <|
      rewrite (operator '&' ['&'] ['a', 'n', 'd']) <|
        rewrite (operator '|' ['|'] ['o', 'r']) source

/-- Blanks behind a plain word and before another character, which can be a blank. -/
def behindWord : Pattern :=
  gap isPlain fun c => !isPlain c

/-- Blanks before a plain word and behind another character, which can be a blank. -/
def beforeWord : Pattern :=
  gap (fun c => !isPlain c) isPlain

/-- A text with the blanks between words and other characters dropped, and with the runs that
are left folded. -/
def rewriteBlanks (text : List Char) : List Char :=
  rewrite blanks (rewrite beforeWord (rewrite behindWord text))

/-- The normal spelling of a text, pass by pass. -/
def passes (source : List Char) : List Char :=
  trim (rewriteBlanks (rewriteOperators source))

theorem rewrite_nil (pattern : Pattern) : rewrite pattern [] = [] := by
  rw [rewrite]

theorem rewrite_of_hit {pattern : Pattern} {c : Char} {rest : List Char} {hit : Hit (c :: rest)}
    (h : pattern (c :: rest) = some hit) :
    rewrite pattern (c :: rest) = hit.written ++ rewrite pattern hit.after := by
  rw [rewrite, h]

theorem rewrite_of_miss {pattern : Pattern} {c : Char} {rest : List Char}
    (h : pattern (c :: rest) = none) :
    rewrite pattern (c :: rest) = c :: rewrite pattern rest := by
  rw [rewrite, h]

/-! Operators -/

section

variable {sign : Char} {others word : List Char}

theorem rewrite_operator_hit (after : List Char) :
    rewrite (operator sign others word) (sign :: others ++ after) =
      ' ' :: word ++ ' ' :: rewrite (operator sign others word) after := by
  have hcut : afterPrefix? (sign :: others) (sign :: (others ++ after)) = some after :=
    afterPrefix?_append (sign :: others) after
  obtain ⟨hit, hhit, hwritten, hafter⟩ :
      ∃ hit, operator sign others word (sign :: (others ++ after)) = some hit ∧
        hit.written = ' ' :: word ++ [' '] ∧ hit.after = after := by
    rw [operator]
    split
    · next found hfound =>
        rw [hcut] at hfound
        cases hfound
        exact ⟨_, rfl, rfl, rfl⟩
    · next hnone =>
        rw [hcut] at hnone
        cases hnone
  rw [List.cons_append, rewrite_of_hit hhit, hwritten, hafter]
  simp

/-- What does not start with the operator stays. -/
theorem rewrite_operator_miss {c : Char} {rest : List Char}
    (h : ∀ after, c :: rest ≠ sign :: others ++ after) :
    rewrite (operator sign others word) (c :: rest) =
      c :: rewrite (operator sign others word) rest := by
  apply rewrite_of_miss
  rw [operator]
  split
  · next after hafter => exact absurd (eq_append_of_afterPrefix? hafter) (h after)
  · rfl

theorem rewrite_operator_of_ne {c : Char} (h : c ≠ sign) (rest : List Char) :
    rewrite (operator sign others word) (c :: rest) =
      c :: rewrite (operator sign others word) rest := by
  apply rewrite_operator_miss
  intro after heq
  exact h (List.cons.inj heq).1

theorem rewrite_operator_append {text : List Char} (h : sign ∉ text) (rest : List Char) :
    rewrite (operator sign others word) (text ++ rest) =
      text ++ rewrite (operator sign others word) rest := by
  induction text with
  | nil => rfl
  | cons c tail ih =>
      rw [List.mem_cons, not_or] at h
      rw [List.cons_append, rewrite_operator_of_ne (Ne.symm h.1), ih h.2, List.cons_append]

/-- The text behind an operator does not start with a sign that it did not start with. -/
theorem head?_rewrite_operator_ne {d : Char} (hd : d ≠ ' ') {text : List Char}
    (h : text.head? ≠ some d) :
    (rewrite (operator sign others word) text).head? ≠ some d := by
  cases text with
  | nil => simp [rewrite_nil]
  | cons c rest =>
      by_cases hhit : ∃ after, c :: rest = sign :: others ++ after
      · obtain ⟨after, heq⟩ := hhit
        rw [heq, rewrite_operator_hit]
        simpa using Ne.symm hd
      · rwa [rewrite_operator_miss fun after heq => hhit ⟨after, heq⟩]

theorem rewrite_pair_miss {other c : Char} {rest : List Char}
    (h : c = sign → rest.head? ≠ some other) :
    rewrite (operator sign [other] word) (c :: rest) =
      c :: rewrite (operator sign [other] word) rest := by
  apply rewrite_operator_miss
  intro after heq
  obtain ⟨hc, hrest⟩ := List.cons.inj heq
  exact h hc (by rw [hrest]; rfl)

/-- A keyword that another operator has been written as stays. -/
theorem rewrite_operator_keyword {keyword : List Char} (hblank : ' ' ≠ sign)
    (h : sign ∉ keyword) (rest : List Char) :
    rewrite (operator sign others word) (' ' :: keyword ++ ' ' :: rest) =
      ' ' :: keyword ++ ' ' :: rewrite (operator sign others word) rest := by
  have hword : sign ∉ ' ' :: keyword := by
    rw [List.mem_cons, not_or]
    exact ⟨Ne.symm hblank, h⟩
  rw [rewrite_operator_append hword, rewrite_operator_of_ne hblank]

end

/-- One operator after the other is all operators at once: the signs of one are no signs of
another, and no keyword brings two signs together. -/
theorem rewriteOperators_eq (source : List Char) : rewriteOperators source = spellOut source := by
  unfold rewriteOperators
  fun_induction spellOut source with
  | case1 rest ih =>
      change rewrite _ (rewrite _ (rewrite _ (rewrite _ (['|', '|'] ++ rest)))) =
        ' ' :: ['o', 'r'] ++ ' ' :: spellOut rest
      rw [rewrite_operator_hit, rewrite_operator_keyword (by decide) (by decide),
        rewrite_operator_keyword (by decide) (by decide),
        rewrite_operator_keyword (by decide) (by decide), ih]
  | case2 rest ih =>
      change rewrite _ (rewrite _ (rewrite _ (rewrite _ (['&', '&'] ++ rest)))) =
        ' ' :: ['a', 'n', 'd'] ++ ' ' :: spellOut rest
      rw [rewrite_operator_append (by decide), rewrite_operator_hit,
        rewrite_operator_keyword (by decide) (by decide),
        rewrite_operator_keyword (by decide) (by decide), ih]
  | case3 rest ih =>
      change rewrite _ (rewrite _ (rewrite _ (rewrite _ (['!'] ++ rest)))) =
        ' ' :: ['n', 'o', 't'] ++ ' ' :: spellOut rest
      rw [rewrite_operator_append (by decide), rewrite_operator_append (by decide),
        rewrite_operator_hit, rewrite_operator_keyword (by decide) (by decide), ih]
  | case4 rest ih =>
      change rewrite _ (rewrite _ (rewrite _ (rewrite _ (['[', ']'] ++ rest)))) =
        ' ' :: ['a', 'r', 'r', 'a', 'y'] ++ ' ' :: spellOut rest
      rw [rewrite_operator_append (by decide), rewrite_operator_append (by decide),
        rewrite_operator_append (by decide), rewrite_operator_hit, ih]
  | case5 c rest hor hand hnot harray ih =>
      -- a pass may have replaced what follows, but the sign at its start was there before
      have hhead {sign other : Char} (h : ∀ tail, c = sign → rest = other :: tail → False) :
          c = sign → rest.head? ≠ some other := by
        intro hc hother
        obtain ⟨tail, heq⟩ := List.head?_eq_some_iff.mp hother
        exact h tail hc heq
      rw [rewrite_pair_miss (hhead hor),
        rewrite_pair_miss fun hc => head?_rewrite_operator_ne (by decide) (hhead hand hc),
        rewrite_operator_of_ne hnot,
        rewrite_pair_miss fun hc => head?_rewrite_operator_ne (by decide)
          (head?_rewrite_operator_ne (by decide) (head?_rewrite_operator_ne (by decide)
            (hhead harray hc))), ih]
  | case6 => simp only [rewrite_nil]

/-! Runs of blanks -/

/-- What to make of a run of blanks, given the character before it and the one behind it, if
there is one. -/
abbrev Edit : Type := Option Char → List Char → Option Char → List Char

/-- A text with its runs of blanks edited, between any two characters and at the edges. `last` is
the character before the text, and `run` the blanks since then. -/
def respace (edit : Edit) (last : Option Char) (run : List Char) : List Char → List Char
  | [] => edit last run none
  | c :: rest =>
      if isBlank c then respace edit last (run ++ [c]) rest
      else edit last run (some c) ++ c :: respace edit (some c) [] rest

theorem respace_blank (edit : Edit) (last : Option Char) (run : List Char) {c : Char}
    (h : isBlank c = true) (rest : List Char) :
    respace edit last run (c :: rest) = respace edit last (run ++ [c]) rest := by
  rw [respace, if_pos h]

theorem respace_cons (edit : Edit) (last : Option Char) (run : List Char) {c : Char}
    (h : isBlank c = false) (rest : List Char) :
    respace edit last run (c :: rest) =
      edit last run (some c) ++ c :: respace edit (some c) [] rest := by
  rw [respace, if_neg (by simp [h])]

/-- Blanks at the start of a text are part of the run before it. -/
theorem respace_append (edit : Edit) (last : Option Char) (run : List Char) {more : List Char}
    (h : ∀ c ∈ more, isBlank c = true) (rest : List Char) :
    respace edit last run (more ++ rest) = respace edit last (run ++ more) rest := by
  induction more generalizing run with
  | nil => simp
  | cons c tail ih =>
      rw [List.forall_mem_cons] at h
      rw [List.cons_append, respace_blank edit last run h.1, ih (run ++ [c]) h.2,
        List.append_assoc, List.singleton_append]

/-- An edit that leaves only blanks where there were blanks. -/
def KeepsBlank (edit : Edit) : Prop :=
  ∀ last run next, (∀ c ∈ run, isBlank c = true) → ∀ c ∈ edit last run next, isBlank c = true

/-- Editing all runs twice is editing each run twice. -/
theorem respace_respace {first : Edit} (hfirst : KeepsBlank first) (second : Edit)
    (last : Option Char) {run : List Char} (hrun : ∀ c ∈ run, isBlank c = true)
    (text : List Char) :
    respace second last [] (respace first last run text) =
      respace (fun last run next => second last (first last run next) next) last run text := by
  induction text generalizing last run with
  | nil =>
      have h := respace_append second last [] (hfirst last run none hrun) []
      rwa [List.append_nil] at h
  | cons c rest ih =>
      by_cases hc : isBlank c = true
      · rw [respace_blank _ _ _ hc, respace_blank _ _ _ hc]
        apply ih
        simpa [or_imp, forall_and, hc] using hrun
      · rw [Bool.not_eq_true] at hc
        rw [respace_cons _ _ _ hc, respace_cons _ _ _ hc,
          respace_append _ _ _ (hfirst last run (some c) hrun), respace_cons _ _ _ hc,
          List.nil_append, ih _ (by simp)]

/-- Blanks behind a plain word: none before another character, else the last one. -/
def editBehindWord : Edit := fun last run next =>
  if last.any isPlain then
    if next.any (fun c => !isPlain c) then [] else run.getLast?.toList
  else run

/-- Blanks before a plain word: none behind another character, else the first one. -/
def editBeforeWord : Edit := fun last run next =>
  if next.any isPlain then
    if last.any (fun c => !isPlain c) then [] else run.head?.toList
  else run

/-- One space for any number of blanks. -/
def editFold : Edit := fun _ run _ =>
  if run.isEmpty then [] else [' ']

/-- No blanks at the edges of a text. -/
def editEdges : Edit := fun last run next =>
  if last.isNone || next.isNone then [] else run

/-- A space for the blanks between two characters of one class, and nothing for any others. -/
def editWeigh : Edit := fun last run next =>
  match last, next with
  | some a, some b => if !run.isEmpty && isPlain a == isPlain b then [' '] else []
  | _, _ => []

theorem keepsBlank_editBehindWord : KeepsBlank editBehindWord := by
  intro last run next h c hc
  unfold editBehindWord at hc
  split at hc
  · split at hc
    · cases hc
    · exact h c (List.mem_of_getLast? (Option.mem_toList.mp hc))
  · exact h c hc

theorem keepsBlank_editBeforeWord : KeepsBlank editBeforeWord := by
  intro last run next h c hc
  unfold editBeforeWord at hc
  split at hc
  · split at hc
    · cases hc
    · exact h c (List.mem_of_head? (Option.mem_toList.mp hc))
  · exact h c hc

theorem keepsBlank_editFold : KeepsBlank editFold := by
  intro last run next _ c hc
  unfold editFold at hc
  split at hc
  · cases hc
  · rw [List.mem_singleton.mp hc]
    decide

/-- The four edits of a run together weigh it. -/
theorem editWeigh_eq (last : Option Char) (run : List Char) (next : Option Char) :
    editEdges last (editFold last (editBeforeWord last (editBehindWord last run next) next) next)
      next = editWeigh last run next := by
  rcases last with _ | a
  · rfl
  · rcases next with _ | b
    · rfl
    · rcases List.eq_nil_or_concat run with rfl | ⟨init, c, rfl⟩
      · cases ha : isPlain a <;> cases hb : isPlain b <;>
          simp [editEdges, editFold, editBeforeWord, editBehindWord, editWeigh, ha, hb]
      · cases ha : isPlain a <;> cases hb : isPlain b <;>
          simp [editEdges, editFold, editBeforeWord, editBehindWord, editWeigh, ha, hb]

/-! What the passes do to a run of blanks -/

theorem behindBlanks?_of_not_isBlank (wanted : Char → Bool) {c : Char} (h : isBlank c = false)
    (rest : List Char) : behindBlanks? wanted (c :: rest) = none := by
  simp [behindBlanks?, h]

/-- All blanks are passed over if the character behind them is wanted. -/
theorem behindBlanks?_of_wanted {wanted : Char → Bool} {run : List Char} (hne : run ≠ [])
    (hrun : ∀ c ∈ run, isBlank c = true) {c : Char} (hc : isBlank c = false)
    (hwanted : wanted c = true) (rest : List Char) :
    behindBlanks? wanted (run ++ c :: rest) = some (c, rest) := by
  induction run with
  | nil => exact absurd rfl hne
  | cons b tail ih =>
      rw [List.forall_mem_cons] at hrun
      rw [List.cons_append, behindBlanks?, if_pos hrun.1]
      by_cases hnil : tail = []
      · subst hnil
        rw [List.nil_append, behindBlanks?_of_not_isBlank wanted hc, Option.none_or, first?,
          if_pos hwanted]
      · rw [ih hnil hrun.2, Option.some_or]

/-- A text in which the character behind blanks is not found at once. -/
structure Unwanted (wanted : Char → Bool) (text : List Char) : Prop where
  first : first? wanted text = none
  later : behindBlanks? wanted text = none

theorem unwanted_nil (wanted : Char → Bool) : Unwanted wanted [] :=
  ⟨rfl, rfl⟩

theorem unwanted_cons {wanted : Char → Bool} {c : Char} (hc : isBlank c = false)
    (h : wanted c = false) (rest : List Char) : Unwanted wanted (c :: rest) :=
  ⟨by simp [first?, h], behindBlanks?_of_not_isBlank wanted hc rest⟩

/-- No blank is wanted itself. -/
theorem behindBlanks?_of_unwanted {wanted : Char → Bool} {run text : List Char}
    (hrun : ∀ c ∈ run, isBlank c = true ∧ wanted c = false) (h : Unwanted wanted text) :
    behindBlanks? wanted (run ++ text) = none := by
  induction run with
  | nil => exact h.later
  | cons b tail ih =>
      obtain ⟨hb, htail⟩ := List.forall_mem_cons.mp hrun
      rw [List.cons_append, behindBlanks?, if_pos hb.1, ih htail, Option.none_or]
      cases tail with
      | nil => exact h.first
      | cons c rest =>
          rw [List.cons_append, first?, if_neg (by simp [(htail c List.mem_cons_self).2])]

/-- The last of several blanks is found if it is wanted and what is behind it is not. -/
theorem behindBlanks?_concat {wanted : Char → Bool} {run text : List Char} (hne : run ≠ [])
    (hrun : ∀ c ∈ run, isBlank c = true) {b : Char} (hb : isBlank b = true)
    (hwanted : wanted b = true) (h : Unwanted wanted text) :
    behindBlanks? wanted (run ++ b :: text) = some (b, text) := by
  induction run with
  | nil => exact absurd rfl hne
  | cons c tail ih =>
      rw [List.forall_mem_cons] at hrun
      rw [List.cons_append, behindBlanks?, if_pos hrun.1]
      by_cases hnil : tail = []
      · subst hnil
        rw [List.nil_append, behindBlanks?, if_pos hb, h.later, h.first, Option.none_or,
          Option.none_or, first?, if_pos hwanted]
      · rw [ih hnil hrun.2, Option.some_or]

theorem rewrite_gap_hit {left right : Char → Bool} {c d : Char} {rest after : List Char}
    (hc : left c = true) (h : behindBlanks? right rest = some (d, after)) :
    rewrite (gap left right) (c :: rest) = c :: d :: rewrite (gap left right) after := by
  obtain ⟨hit, hhit, hwritten, hafter⟩ : ∃ hit, gap left right (c :: rest) = some hit ∧
      hit.written = [c, d] ∧ hit.after = after := by
    rw [gap, if_pos hc]
    split
    · next hfound =>
        rw [h] at hfound
        cases hfound
        exact ⟨_, rfl, rfl, rfl⟩
    · next hnone =>
        rw [h] at hnone
        cases hnone
  rw [rewrite_of_hit hhit, hwritten, hafter]
  rfl

theorem rewrite_gap_miss {left right : Char → Bool} {c : Char} {rest : List Char}
    (h : left c = true → behindBlanks? right rest = none) :
    rewrite (gap left right) (c :: rest) = c :: rewrite (gap left right) rest := by
  apply rewrite_of_miss
  rw [gap]
  split
  · next hc =>
      split
      · next hfound =>
          rw [h hc] at hfound
          cases hfound
      · rfl
  · rfl

/-- A plain word character with blanks behind it, and no other character behind them. -/
theorem rewrite_behindWord_of_unwanted {a : Char} (ha : isPlain a = true) {run text : List Char}
    (hrun : ∀ c ∈ run, isBlank c = true) (h : Unwanted (fun c => !isPlain c) text) :
    rewrite behindWord (a :: (run ++ text)) =
      a :: (run.getLast?.toList ++ rewrite behindWord text) := by
  rcases List.eq_nil_or_concat run with rfl | ⟨init, b, rfl⟩
  · exact rewrite_gap_miss fun _ => h.later
  · rw [List.concat_eq_append, List.forall_mem_append, List.forall_mem_singleton] at hrun
    obtain ⟨hinit, hb⟩ := hrun
    have hplain : isPlain b = false := isPlain_eq_false_of_isBlank hb
    rw [List.concat_eq_append, List.getLast?_concat, List.append_assoc, List.singleton_append]
    by_cases hnil : init = []
    · -- a single blank cannot be both a blank and the character behind it
      subst hnil
      have hmiss : behindBlanks? (fun c => !isPlain c) (b :: text) = none := by
        rw [behindBlanks?, if_pos hb, h.later, h.first, Option.none_or]
      rw [List.nil_append, behindWord, rewrite_gap_miss fun _ => hmiss,
        rewrite_gap_miss fun hword => by rw [hplain] at hword; cases hword]
      rfl
    · exact rewrite_gap_hit ha (behindBlanks?_concat hnil hinit hb (by rw [hplain]; rfl) h)

/-- A plain word character and another one, with blanks between them or none. -/
theorem rewrite_behindWord_of_wanted {a c : Char} (ha : isPlain a = true)
    (hc : isBlank c = false) (hplain : isPlain c = false) {run : List Char}
    (hrun : ∀ c ∈ run, isBlank c = true) (rest : List Char) :
    rewrite behindWord (a :: (run ++ c :: rest)) = a :: c :: rewrite behindWord rest := by
  by_cases hnil : run = []
  · subst hnil
    rw [List.nil_append, behindWord,
      rewrite_gap_miss fun _ => behindBlanks?_of_not_isBlank _ hc rest,
      rewrite_gap_miss fun hword => by rw [hplain] at hword; cases hword]
  · exact rewrite_gap_hit ha (behindBlanks?_of_wanted hnil hrun hc (by rw [hplain]; rfl) rest)

theorem rewrite_behindWord_cons {c : Char} (h : isPlain c = false) (rest : List Char) :
    rewrite behindWord (c :: rest) = c :: rewrite behindWord rest :=
  rewrite_gap_miss fun hword => by rw [h] at hword; cases hword

/-- The run of blanks grows by a blank. -/
theorem forall_mem_concat {run : List Char} (hrun : ∀ c ∈ run, isBlank c = true) {c : Char}
    (hc : isBlank c = true) : ∀ d ∈ run ++ [c], isBlank d = true := by
  simpa [or_imp, forall_and, hc] using hrun

/-- The first pass edits the runs behind plain words: a run behind a word is found together with
the word, and any other run is copied. -/
theorem respace_editBehindWord (text : List Char) :
    (∀ last run, last.any isPlain = false → (∀ c ∈ run, isBlank c = true) →
      respace editBehindWord last run text = run ++ rewrite behindWord text) ∧
    ∀ a run, isPlain a = true → (∀ c ∈ run, isBlank c = true) →
      a :: respace editBehindWord (some a) run text =
        rewrite behindWord (a :: (run ++ text)) := by
  induction text with
  | nil =>
      refine ⟨fun last run hlast _ => ?_, fun a run ha hrun => ?_⟩
      · simp [rewrite_nil, respace, editBehindWord, hlast]
      · rw [rewrite_behindWord_of_unwanted ha hrun (unwanted_nil _), rewrite_nil]
        simp [respace, editBehindWord, ha]
  | cons c rest ih =>
      obtain ⟨hother, hword⟩ := ih
      by_cases hc : isBlank c = true
      · refine ⟨fun last run hlast hrun => ?_, fun a run ha hrun => ?_⟩
        · rw [respace_blank _ _ _ hc, hother last _ hlast (forall_mem_concat hrun hc),
            rewrite_behindWord_cons (isPlain_eq_false_of_isBlank hc), List.append_assoc,
            List.singleton_append]
        · rw [respace_blank _ _ _ hc, hword a _ ha (forall_mem_concat hrun hc),
            List.append_assoc, List.singleton_append]
      · rw [Bool.not_eq_true] at hc
        have hnext : c :: respace editBehindWord (some c) [] rest =
            rewrite behindWord (c :: rest) := by
          cases hplain : isPlain c with
          | true => exact hword c [] hplain (by simp)
          | false =>
              rw [hother (some c) [] hplain (by simp), rewrite_behindWord_cons hplain]
              rfl
        refine ⟨fun last run hlast hrun => ?_, fun a run ha hrun => ?_⟩
        · rw [respace_cons _ _ _ hc, hnext]
          simp [editBehindWord, hlast]
        · rw [respace_cons _ _ _ hc, hnext]
          cases hplain : isPlain c with
          | true =>
              rw [rewrite_behindWord_of_unwanted ha hrun (unwanted_cons hc (by simp [hplain]) rest)]
              simp [editBehindWord, ha, hplain]
          | false =>
              rw [rewrite_behindWord_of_wanted ha hc hplain hrun, rewrite_behindWord_cons hplain]
              simp [editBehindWord, ha, hplain]

theorem rewrite_beforeWord_cons {c : Char} (h : isPlain c = true) (rest : List Char) :
    rewrite beforeWord (c :: rest) = c :: rewrite beforeWord rest :=
  rewrite_gap_miss fun hother => by simp [h] at hother

/-- Blanks are no word characters, so they are passed over on the way to one. -/
theorem behindBlanks?_isPlain_of_unwanted {run text : List Char}
    (hrun : ∀ c ∈ run, isBlank c = true) (h : Unwanted isPlain text) :
    behindBlanks? isPlain (run ++ text) = none :=
  behindBlanks?_of_unwanted (fun c hc => ⟨hrun c hc, isPlain_eq_false_of_isBlank (hrun c hc)⟩) h

/-- Any character and blanks with no word behind them. -/
theorem rewrite_beforeWord_of_unwanted {run text : List Char}
    (hrun : ∀ c ∈ run, isBlank c = true) (h : Unwanted isPlain text) (a : Char) :
    rewrite beforeWord (a :: (run ++ text)) = a :: (run ++ rewrite beforeWord text) := by
  induction run generalizing a with
  | nil => exact rewrite_gap_miss fun _ => h.later
  | cons b tail ih =>
      rw [beforeWord, rewrite_gap_miss fun _ => behindBlanks?_isPlain_of_unwanted hrun h,
        ← beforeWord, List.cons_append, ih (List.forall_mem_cons.mp hrun).2 b, List.cons_append]

/-- Blanks and a word behind them: the first blank stands before the others. -/
theorem rewrite_beforeWord_of_wanted {run : List Char} (hrun : ∀ c ∈ run, isBlank c = true)
    {c : Char} (hc : isPlain c = true) (rest : List Char) :
    rewrite beforeWord (run ++ c :: rest) = run.head?.toList ++ c :: rewrite beforeWord rest := by
  have hblank := isBlank_eq_false_of_isPlain hc
  cases run with
  | nil => exact rewrite_beforeWord_cons hc rest
  | cons b tail =>
      rw [List.forall_mem_cons] at hrun
      have hb : isPlain b = false := isPlain_eq_false_of_isBlank hrun.1
      by_cases hnil : tail = []
      · subst hnil
        rw [List.singleton_append, beforeWord,
          rewrite_gap_miss fun _ => behindBlanks?_of_not_isBlank _ hblank rest, ← beforeWord,
          rewrite_beforeWord_cons hc]
        rfl
      · exact rewrite_gap_hit (by rw [hb]; rfl)
          (behindBlanks?_of_wanted hnil hrun.2 hblank hc rest)

/-- A character that is none of a word, and a word behind it, with blanks between or none. -/
theorem rewrite_beforeWord_other {a c : Char} (ha : isPlain a = false) (hc : isPlain c = true)
    {run : List Char} (hrun : ∀ c ∈ run, isBlank c = true) (rest : List Char) :
    rewrite beforeWord (a :: (run ++ c :: rest)) = a :: c :: rewrite beforeWord rest := by
  have hblank := isBlank_eq_false_of_isPlain hc
  by_cases hnil : run = []
  · subst hnil
    rw [List.nil_append, beforeWord,
      rewrite_gap_miss fun _ => behindBlanks?_of_not_isBlank _ hblank rest, ← beforeWord,
      rewrite_beforeWord_cons hc]
  · exact rewrite_gap_hit (by rw [ha]; rfl) (behindBlanks?_of_wanted hnil hrun hblank hc rest)

/-- The second pass edits the runs before plain words: a run behind another character is found
together with that character, and any other run from its own first blank on. -/
theorem respace_editBeforeWord (text : List Char) :
    (∀ last run, last.any (fun c => !isPlain c) = false → (∀ c ∈ run, isBlank c = true) →
      respace editBeforeWord last run text = rewrite beforeWord (run ++ text)) ∧
    ∀ a run, isPlain a = false → (∀ c ∈ run, isBlank c = true) →
      a :: respace editBeforeWord (some a) run text =
        rewrite beforeWord (a :: (run ++ text)) := by
  have hcopied {run text : List Char} (hrun : ∀ c ∈ run, isBlank c = true)
      (h : Unwanted isPlain text) :
      rewrite beforeWord (run ++ text) = run ++ rewrite beforeWord text := by
    cases run with
    | nil => rfl
    | cons b tail => exact rewrite_beforeWord_of_unwanted (List.forall_mem_cons.mp hrun).2 h b
  induction text with
  | nil =>
      refine ⟨fun last run hlast hrun => ?_, fun a run ha hrun => ?_⟩
      · rw [hcopied hrun (unwanted_nil _), rewrite_nil]
        simp [respace, editBeforeWord]
      · rw [rewrite_beforeWord_of_unwanted hrun (unwanted_nil _), rewrite_nil]
        simp [respace, editBeforeWord]
  | cons c rest ih =>
      obtain ⟨hword, hother⟩ := ih
      by_cases hc : isBlank c = true
      · refine ⟨fun last run hlast hrun => ?_, fun a run ha hrun => ?_⟩
        · rw [respace_blank _ _ _ hc, hword last _ hlast (forall_mem_concat hrun hc),
            List.append_assoc, List.singleton_append]
        · rw [respace_blank _ _ _ hc, hother a _ ha (forall_mem_concat hrun hc),
            List.append_assoc, List.singleton_append]
      · rw [Bool.not_eq_true] at hc
        cases hplain : isPlain c with
        | true =>
            have hnext := hword (some c) [] (by simp [hplain]) (by simp)
            refine ⟨fun last run hlast hrun => ?_, fun a run ha hrun => ?_⟩
            · rw [respace_cons _ _ _ hc, hnext, rewrite_beforeWord_of_wanted hrun hplain]
              simp only [editBeforeWord, Option.any_some, hplain, hlast, if_true,
                Bool.false_eq_true, if_false, List.nil_append]
            · rw [respace_cons _ _ _ hc, hnext, rewrite_beforeWord_other ha hplain hrun]
              simp [editBeforeWord, ha, hplain]
        | false =>
            have hnext := hother c [] hplain (by simp)
            have hunwanted := unwanted_cons hc hplain rest
            refine ⟨fun last run hlast hrun => ?_, fun a run ha hrun => ?_⟩
            · rw [respace_cons _ _ _ hc, hnext, hcopied hrun hunwanted]
              simp [editBeforeWord, hplain]
            · rw [respace_cons _ _ _ hc, hnext, rewrite_beforeWord_of_unwanted hrun hunwanted]
              simp [editBeforeWord, hplain]

theorem trimStart_of_blanks {run : List Char} (h : ∀ c ∈ run, isBlank c = true) :
    trimStart run = [] :=
  List.dropWhile_eq_nil_iff.mpr h

theorem rewrite_blanks_append {run : List Char} (hrun : ∀ c ∈ run, isBlank c = true)
    {text : List Char} (h : NoLeadingBlank text) :
    rewrite blanks (run ++ text) =
      (if run.isEmpty then [] else [' ']) ++ rewrite blanks text := by
  cases run with
  | nil => rfl
  | cons b tail =>
      rw [List.forall_mem_cons] at hrun
      have hafter : trimStart (tail ++ text) = text := by
        rw [trimStart_append tail h, trimStart_of_blanks hrun.2, List.nil_append]
      obtain ⟨hit, hhit, hwritten, hrest⟩ : ∃ hit, blanks (b :: (tail ++ text)) = some hit ∧
          hit.written = [' '] ∧ hit.after = text := ⟨_, if_pos hrun.1, rfl, hafter⟩
      rw [List.cons_append, rewrite_of_hit hhit, hwritten, hrest]
      rfl

theorem rewrite_blanks_cons {c : Char} (h : isBlank c = false) (rest : List Char) :
    rewrite blanks (c :: rest) = c :: rewrite blanks rest :=
  rewrite_of_miss (if_neg (by simp [h]))

/-- The third pass edits every run. -/
theorem respace_editFold (last : Option Char) {run : List Char}
    (hrun : ∀ c ∈ run, isBlank c = true) (text : List Char) :
    respace editFold last run text = rewrite blanks (run ++ text) := by
  induction text generalizing last run with
  | nil =>
      rw [rewrite_blanks_append hrun (by simp [NoLeadingBlank]), rewrite_nil, List.append_nil]
      rfl
  | cons c rest ih =>
      by_cases hc : isBlank c = true
      · rw [respace_blank _ _ _ hc, ih last (forall_mem_concat hrun hc), List.append_assoc,
          List.singleton_append]
      · rw [Bool.not_eq_true] at hc
        have hhead : NoLeadingBlank (c :: rest) := by simpa [NoLeadingBlank] using hc
        rw [respace_cons _ _ _ hc, ih (some c) (by simp), rewrite_blanks_append hrun hhead,
          rewrite_blanks_cons hc]
        rfl

/-- Behind its first character, trimming edits the run at the end of a text. -/
theorem respace_editEdges_some (a : Char) {run : List Char}
    (hrun : ∀ c ∈ run, isBlank c = true) (text : List Char) :
    respace editEdges (some a) run text = trimEnd (run ++ text) := by
  induction text generalizing a run with
  | nil =>
      rw [List.append_nil, trimEnd, List.dropWhile_eq_nil_iff.mpr]
      · rfl
      · exact fun c hc => hrun c (List.mem_reverse.mp hc)
  | cons c rest ih =>
      by_cases hc : isBlank c = true
      · rw [respace_blank _ _ _ hc, ih a (forall_mem_concat hrun hc), List.append_assoc,
          List.singleton_append]
      · rw [Bool.not_eq_true] at hc
        have hend : NoTrailingBlank (run ++ [c]) := by simpa [NoTrailingBlank] using hc
        rw [respace_cons _ _ _ hc, ih c (by simp), List.nil_append,
          ← List.singleton_append (l := rest), ← List.append_assoc, trimEnd_append rest hend,
          List.append_assoc]
        rfl

/-- Trimming edits the runs at both edges. -/
theorem respace_editEdges (run text : List Char) :
    respace editEdges none run text = trim text := by
  induction text generalizing run with
  | nil => rfl
  | cons c rest ih =>
      by_cases hc : isBlank c = true
      · rw [respace_blank _ _ _ hc, ih, trim_cons_of_isBlank hc]
      · rw [Bool.not_eq_true] at hc
        have hhead : NoLeadingBlank (c :: rest) := by simpa [NoLeadingBlank] using hc
        have hend : NoTrailingBlank [c] := by simpa [NoTrailingBlank] using hc
        rw [respace_cons _ _ _ hc, respace_editEdges_some c (by simp), trim,
          trimStart_of_noLeadingBlank hhead, ← List.singleton_append (l := rest),
          trimEnd_append rest hend]
        rfl

/-! Weighing -/

theorem respace_editWeigh_some (a : Char) (run text : List Char) :
    respace editWeigh (some a) run text = weighAfter a (!run.isEmpty) text := by
  induction text generalizing a run with
  | nil => rfl
  | cons c rest ih =>
      by_cases hc : isBlank c = true
      · rw [respace_blank _ _ _ hc, ih, weighAfter_blank hc]
        cases run <;> rfl
      · rw [Bool.not_eq_true] at hc
        rw [respace_cons _ _ _ hc, ih, weighAfter, if_neg (by simp [hc])]
        change (if !run.isEmpty && isPlain a == isPlain c then [' '] else []) ++ _ = _
        split <;> rfl

theorem respace_editWeigh (run text : List Char) :
    respace editWeigh none run text = weigh text := by
  induction text generalizing run with
  | nil => rfl
  | cons c rest ih =>
      by_cases hc : isBlank c = true
      · rw [respace_blank _ _ _ hc, ih, weigh_cons_of_isBlank hc]
      · rw [Bool.not_eq_true] at hc
        rw [respace_cons _ _ _ hc, respace_editWeigh_some, weigh_cons_of_not_isBlank hc]
        rfl

/-- Three passes over the blanks and trimming weigh the blanks. -/
theorem trim_rewriteBlanks (text : List Char) : trim (rewriteBlanks text) = weigh text := by
  have hbehind := (respace_editBehindWord text).1 none [] rfl (by simp)
  have hbefore := (respace_editBeforeWord (rewrite behindWord text)).1 none [] rfl (by simp)
  have hfold := respace_editFold none (List.forall_mem_nil _)
    (rewrite beforeWord (rewrite behindWord text))
  rw [List.nil_append] at hbehind hbefore hfold
  rw [← respace_editEdges [], rewriteBlanks, ← hfold, ← hbefore, ← hbehind,
    respace_respace keepsBlank_editFold _ _ (by simp),
    respace_respace keepsBlank_editBeforeWord _ _ (by simp),
    respace_respace keepsBlank_editBehindWord _ _ (by simp)]
  simp only [editWeigh_eq]
  exact respace_editWeigh [] text

/-- The passes make the normal spelling. -/
theorem passes_eq (source : List Char) : passes source = normalChars source := by
  rw [passes, rewriteOperators_eq, trim_rewriteBlanks, normalChars]

end Switchboard.Spelling
