import Switchboard.Expr.Parser
import Switchboard.Proofs.Characters

/-!
Where the keywords of a type expression stand. A text of one line is cut at a word exactly
where the word stands between word boundaries, and at the first such place. A keyword that
stands in a text of two parts stands in one of them, unless word characters meet where the
parts do; so a text is free of a keyword when its parts are.
-/

namespace Switchboard.Parser

open Text

abbrev orWord : List Char := ['o', 'r']

abbrev andWord : List Char := ['a', 'n', 'd']

abbrev notWord : List Char := ['n', 'o', 't']

abbrev arrayWord : List Char := ['a', 'r', 'r', 'a', 'y']

/-- The words that stand for operators. -/
def keywords : List (List Char) :=
  [orWord, andWord, notWord, arrayWord]

/-- A plain word that stands for no operator. -/
def IsOperandWord (name : String) : Prop :=
  isPlainWord name = true ∧ name.toList ∉ keywords

instance : DecidablePred IsOperandWord :=
  fun name => inferInstanceAs (Decidable (isPlainWord name = true ∧ name.toList ∉ keywords))

/-- A text cut at the first place of a word. -/
def cutAtWord? (word : List Char) (last : Option Char) (text : List Char) :
    Option (List Char × List Char) :=
  (places word last text).head?

/-- A word without a place in a text. -/
def Free (word text : List Char) : Prop :=
  cutAtWord? word none text = none

theorem free_nil (word : List Char) : Free word [] := rfl

theorem isBoundary_some (c : Char) : isBoundary (some c) = !isWord c := rfl

theorem isBoundary_of_isBlank {c : Char} (hc : isBlank c = true) : isBoundary (some c) = true := by
  rw [isBoundary_some, isWord_eq_false_of_isBlank hc]
  rfl

theorem cutAtWord?_cons (word : List Char) (last : Option Char) (c : Char) (rest : List Char) :
    cutAtWord? word last (c :: rest) =
      match if isBoundary last then
          (afterPrefix? word (c :: rest)).filter fun after => isBoundary after.head?
        else none with
      | some after => some ([], after)
      | none =>
          (cutAtWord? word (some c) rest).map fun (before, after) => (c :: before, after) := by
  rw [cutAtWord?, places]
  cases if isBoundary last then
      (afterPrefix? word (c :: rest)).filter fun after => isBoundary after.head?
    else none with
  | some after => rfl
  | none => exact List.head?_map

theorem mem_places_of_cutAtWord? {word text : List Char} {last : Option Char}
    {sides : List Char × List Char} (h : cutAtWord? word last text = some sides) :
    sides ∈ places word last text :=
  List.mem_of_mem_head? h

/-- A text is cut at a place between boundaries. -/
theorem eq_append_of_cutAtWord? {word before after text : List Char} {last : Option Char}
    (hword : word ≠ []) (h : cutAtWord? word last text = some (before, after)) :
    text = before ++ word ++ after ∧ isBoundary (before.getLast?.or last) = true ∧
      isBoundary after.head? = true :=
  (mem_places_iff hword).mp (mem_places_of_cutAtWord? h)

/-- A text with a place for a word is cut somewhere. -/
theorem cutAtWord?_ne_none {word before after : List Char} {last : Option Char}
    (hword : word ≠ []) (hleft : isBoundary (before.getLast?.or last) = true)
    (hright : isBoundary after.head? = true) :
    cutAtWord? word last (before ++ word ++ after) ≠ none := by
  have hplace : (before, after) ∈ places word last (before ++ word ++ after) :=
    (mem_places_iff hword).mpr ⟨rfl, hleft, hright⟩
  rw [cutAtWord?, Ne, List.head?_eq_none_iff]
  exact List.ne_nil_of_mem hplace

/-- A word is free where it has no place between boundaries. -/
theorem free_iff {word : List Char} (hword : word ≠ []) (text : List Char) :
    Free word text ↔ ∀ before after, text = before ++ word ++ after →
      isBoundary before.getLast? = true → isBoundary after.head? = false := by
  constructor
  · rintro h before after rfl hleft
    rw [Bool.eq_false_iff]
    intro hright
    exact cutAtWord?_ne_none hword (by simpa using hleft) hright h
  · intro h
    by_contra hcut
    obtain ⟨⟨before, after⟩, hsome⟩ := Option.ne_none_iff_exists'.mp hcut
    obtain ⟨htext, hleft, hright⟩ := eq_append_of_cutAtWord? hword hsome
    rw [h before after htext (by simpa using hleft)] at hright
    cases hright

/-- A word with a character that the text has not is free in it. -/
theorem free_of_notMem {word text : List Char} {c : Char} (hc : c ∈ word) (htext : c ∉ text) :
    Free word text := by
  rw [free_iff (List.ne_nil_of_mem hc)]
  rintro before after rfl
  exact absurd (by simp [hc]) htext

/-- A word is free in two parts if it is free in each and has not both of the characters
that meet between them. -/
theorem Free.append_of_notMem {word before after : List Char} (hword : word ≠ [])
    (hbefore : Free word before) (hafter : Free word after)
    (hmeet : (∀ c ∈ before.getLast?, c ∉ word) ∨ (∀ c ∈ after.head?, c ∉ word)) :
    Free word (before ++ after) := by
  rw [free_iff hword] at hbefore hafter ⊢
  intro left right heq hleft
  rw [List.append_eq_append_iff] at heq
  rcases heq with ⟨middle, heq, rfl⟩ | ⟨middle, rfl, rfl⟩
  · rw [List.append_eq_append_iff] at heq
    rcases heq with ⟨inner, rfl, rfl⟩ | ⟨inner, rfl, rfl⟩
    · -- the word starts at or before the meeting point and ends at or behind it
      rcases List.eq_nil_or_concat inner with rfl | ⟨init, c, rfl⟩
      · exact hafter [] right (by simp) rfl
      · cases middle with
        | nil =>
            have hend := hbefore left [] (by simp) hleft
            cases hend
        | cons d rest =>
            exfalso
            rcases hmeet with hmeet | hmeet
            · exact hmeet c (by simp) (by simp)
            · exact hmeet d (by simp) (by simp)
    · apply hafter inner right (by simp)
      rw [List.getLast?_append] at hleft
      cases hlast : inner.getLast? with
      | none => rfl
      | some c => simpa [hlast] using hleft
  · have hend := hbefore left middle (by simp) hleft
    cases middle with
    | nil => cases hend
    | cons c rest => simpa using hend

/-- A word of word characters is free in two parts if it is free in each and no word
characters meet between them. -/
theorem Free.append {word before after : List Char} (hword : word ≠ [])
    (hall : ∀ c ∈ word, isWord c = true) (hbefore : Free word before) (hafter : Free word after)
    (hmeet : isBoundary before.getLast? = true ∨ isBoundary after.head? = true) :
    Free word (before ++ after) := by
  have hnotMem (neighbour : Option Char) (h : isBoundary neighbour = true) :
      ∀ c ∈ neighbour, c ∉ word := by
    rintro c rfl hc
    rw [isBoundary_some, hall c hc] at h
    cases h
  exact hbefore.append_of_notMem hword hafter (hmeet.imp (hnotMem _) (hnotMem _))

/-- A word whose place in a text is not between boundaries is free in it, if nothing of it
stands beside that place. -/
theorem free_of_blocked {word before after : List Char} (hword : word ≠ [])
    (hbefore : Free word before) (hafter : Free word after)
    (hlast : ∀ c ∈ before.getLast?, c ∉ word) (hhead : ∀ c ∈ after.head?, c ∉ word)
    (hblock : isBoundary before.getLast? = false ∨ isBoundary after.head? = false) :
    Free word (before ++ word ++ after) := by
  rw [free_iff hword] at hbefore hafter ⊢
  intro left right heq hleft
  have hsame (hplace : before = left ∧ after = right) : isBoundary right.head? = false := by
    obtain ⟨rfl, rfl⟩ := hplace
    rcases hblock with hblock | hblock
    · rw [hblock] at hleft
      cases hleft
    · exact hblock
  rw [List.append_assoc, List.append_assoc, List.append_eq_append_iff] at heq
  rcases heq with ⟨middle, rfl, heq⟩ | ⟨middle, rfl, heq⟩
  · rw [List.append_eq_append_iff] at heq
    rcases heq with ⟨rest, rfl, rfl⟩ | ⟨rest, hword', heq⟩
    · -- the word stands in the text behind its blocked place
      apply hafter rest right (by simp)
      rw [List.getLast?_append, List.getLast?_append] at hleft
      cases hlast : rest.getLast? with
      | none => rfl
      | some c => simpa [hlast] using hleft
    · cases middle with
      | nil =>
          apply hsame
          rw [List.nil_append] at hword'
          rw [← hword', List.append_cancel_left_eq] at heq
          simp [heq]
      | cons m ms =>
          -- the word would start in its blocked place and end behind it
          exfalso
          have hlength := congrArg List.length hword'
          rw [List.append_eq_append_iff] at heq
          rcases heq with ⟨more, rfl, _⟩ | ⟨more, hmore, rfl⟩
          · simp only [List.length_append, List.length_cons] at hlength
            omega
          · cases more with
            | nil =>
                rw [List.append_nil] at hmore
                simp only [hmore, List.length_append, List.length_cons] at hlength
                omega
            | cons c cs => exact hhead c rfl (by simp [hmore])
  · cases middle using List.reverseRecOn with
    | nil =>
        apply hsame
        rw [List.nil_append, List.append_cancel_left_eq] at heq
        simp [heq]
    | append_singleton init c =>
        rw [List.append_eq_append_iff] at heq
        rcases heq with ⟨rest, hrest, rfl⟩ | ⟨rest, rfl, _⟩
        · have hend := hbefore left rest (by simp [hrest]) hleft
          cases rest with
          | nil => cases hend
          | cons d ds => simpa using hend
        · exact absurd (by simp) (hlast c (by simp))

/-- A text is cut at the first place of a word. -/
theorem cutAtWord?_append {word before after : List Char} {last : Option Char}
    (hword : word ≠ []) (hall : ∀ c ∈ word, isWord c = true)
    (hfree : cutAtWord? word last before = none)
    (hleft : isBoundary (before.getLast?.or last) = true)
    (hright : isBoundary after.head? = true) :
    cutAtWord? word last (before ++ word ++ after) = some (before, after) := by
  induction before generalizing last with
  | nil =>
      obtain ⟨w, ws, rfl⟩ := List.exists_cons_of_ne_nil hword
      have hleft : isBoundary last = true := hleft
      have hhere : afterPrefix? (w :: ws) (w :: (ws ++ after)) = some after :=
        afterPrefix?_append (w :: ws) after
      have hfilter : (some after).filter (fun text => isBoundary text.head?) = some after := by
        rw [Option.filter_eq_some_iff]
        exact ⟨rfl, hright⟩
      simp only [List.nil_append, List.cons_append, cutAtWord?_cons, hleft, if_true, hhere,
        hfilter]
  | cons c rest ih =>
      have hlast : ∃ d, (c :: rest).getLast? = some d ∧ isWord d = false := by
        rw [List.getLast?_cons] at hleft ⊢
        exact ⟨_, rfl, by simpa [isBoundary_some] using hleft⟩
      obtain ⟨d, hd, hdword⟩ := hlast
      have hnone : (if isBoundary last then
          (afterPrefix? word (c :: (rest ++ word ++ after))).filter fun text =>
            isBoundary text.head? else none) = none := by
        by_contra hsome
        obtain ⟨found, hfound⟩ := Option.ne_none_iff_exists'.mp hsome
        split at hfound
        · next hboundary =>
            rw [Option.filter_eq_some_iff] at hfound
            have heq := eq_append_of_afterPrefix? hfound.1
            rw [← List.cons_append, ← List.cons_append, List.append_assoc,
              List.append_eq_append_iff] at heq
            rcases heq with ⟨middle, rfl, _⟩ | ⟨middle, hmiddle, rfl⟩
            · -- the last character before the cut would be a character of the word
              rw [hall d (List.mem_append_left _ (List.mem_of_getLast? hd))] at hdword
              cases hdword
            · cases middle with
              | nil =>
                  rw [hmiddle, List.append_nil] at hd
                  rw [hall d (List.mem_of_getLast? hd)] at hdword
                  cases hdword
              | cons e tail =>
                  rw [hmiddle] at hfree
                  have hcut : cutAtWord? word last ([] ++ word ++ e :: tail) ≠ none := by
                    refine cutAtWord?_ne_none hword ?_ ?_
                    · exact hboundary
                    · simpa using hfound.2
                  exact hcut hfree
        · cases hfound
      have hfree' : cutAtWord? word (some c) rest = none := by
        rw [cutAtWord?_cons] at hfree
        split at hfree
        · cases hfree
        · simpa using hfree
      rw [getLast?_cons_or] at hleft
      simp only [List.cons_append, cutAtWord?_cons, hnone, ih hfree' hleft, Option.map_some]

theorem beforeFinal?_eq_some_iff (word text before : List Char) :
    beforeFinal? word text = some before ↔
      text = before ++ word ∧ isBoundary before.getLast? = true := by
  constructor
  · intro h
    refine ⟨eq_append_of_beforeFinal? h, ?_⟩
    simp only [beforeFinal?, Option.map_eq_some_iff, Option.filter_eq_some_iff] at h
    obtain ⟨after, ⟨_, hleft⟩, rfl⟩ := h
    rwa [List.getLast?_reverse]
  · rintro ⟨rfl, hleft⟩
    rw [beforeFinal?, List.reverse_append, afterPrefix?_append]
    have hfilter : (some before.reverse).filter (fun text => isBoundary text.head?) =
        some before.reverse := by
      rw [Option.filter_eq_some_iff]
      exact ⟨rfl, by rwa [List.head?_reverse]⟩
    rw [hfilter, Option.map_some, List.reverse_reverse]

theorem afterInitial?_eq_some_iff (word text after : List Char) :
    afterInitial? word text = some after ↔
      text = word ++ after ∧ isBoundary after.head? = true := by
  constructor
  · intro h
    refine ⟨eq_append_of_afterInitial? h, ?_⟩
    rw [afterInitial?, Option.filter_eq_some_iff] at h
    exact h.2
  · rintro ⟨rfl, hright⟩
    rw [afterInitial?, afterPrefix?_append, Option.filter_eq_some_iff]
    exact ⟨rfl, hright⟩

/-- A word that is free in a text does not end or start it. -/
theorem Free.ends {word text : List Char} (hword : word ≠ []) (h : Free word text) :
    beforeFinal? word text = none ∧ afterInitial? word text = none := by
  have hfree := (free_iff hword text).mp h
  constructor
  · apply Option.eq_none_iff_forall_ne_some.mpr
    intro before hbefore
    obtain ⟨rfl, hleft⟩ := (beforeFinal?_eq_some_iff _ _ _).mp hbefore
    have hright := hfree before [] (by simp) hleft
    cases hright
  · apply Option.eq_none_iff_forall_ne_some.mpr
    intro after hafter
    obtain ⟨rfl, hright⟩ := (afterInitial?_eq_some_iff _ _ _).mp hafter
    have hright' := hfree [] after (by simp) rfl
    simp [hright] at hright'

/-! How a text splits -/

/-- The sides of the keyword of a split meet it at word boundaries. -/
def Split.Bounded : Split → Prop
  | .or left right => isBoundary left.getLast? = true ∧ isBoundary right.head? = true
  | .and left right => isBoundary left.getLast? = true ∧ isBoundary right.head? = true
  | .arrayOf inner => isBoundary inner.getLast? = true
  | .not inner => isBoundary inner.head? = true

theorem boundaries_of_cut? {word text left right : List Char} (hword : word ≠ [])
    (h : cut? word text = some (left, right)) :
    isBoundary left.getLast? = true ∧ isBoundary right.head? = true := by
  obtain ⟨_, hleft, hright⟩ := (mem_places_iff hword).mp (mem_places_of_cut? h)
  exact ⟨by rwa [Option.or_none] at hleft, hright⟩

theorem bounded_of_split? {text : List Char} {split : Split} (h : split? text = some split) :
    split.Bounded := by
  unfold split? at h
  split at h
  · next hcut =>
      cases h
      exact boundaries_of_cut? (by simp) hcut
  · split at h
    · next hcut =>
        cases h
        exact boundaries_of_cut? (by simp) hcut
    · split at h
      · next hcut =>
          cases h
          exact ((beforeFinal?_eq_some_iff _ _ _).mp (Option.filter_eq_some_iff.mp hcut).1).2
      · obtain ⟨inner, hcut, rfl⟩ := Option.map_eq_some_iff.mp h
        exact ((afterInitial?_eq_some_iff _ _ _).mp (Option.filter_eq_some_iff.mp hcut).1).2

theorem cut?_of_free {word text : List Char} (h : Free word text) : cut? word text = none := by
  rw [Free, cutAtWord?, List.head?_eq_none_iff] at h
  rw [cut?, h]
  rfl

/-- A stretch of one line is one line. -/
theorem isLine_trim_of_isInfix {part text : List Char} (hline : '\n' ∉ text)
    (hpart : part <:+: text) : isLine (trim part) = true :=
  isLine_iff.mpr fun hmem => hline (hpart.subset ((trim_sublist part).subset hmem))

/-- A text of one line is cut at the first place of a word. -/
theorem cut?_of_line {word text : List Char} (hword : word ≠ []) (hline : '\n' ∉ text) :
    cut? word text = cutAtWord? word none text := by
  rw [cut?, cutAtWord?]
  cases hplaces : places word none text with
  | nil => rfl
  | cons sides others =>
      have hfirst : (sides.1, sides.2) ∈ places word none text := by simp [hplaces]
      obtain ⟨htext, _, _⟩ := (mem_places_iff hword).mp hfirst
      have hleft : sides.1 <:+: text := ⟨[], word ++ sides.2, by simp [htext]⟩
      have hright : sides.2 <:+: text := ⟨sides.1 ++ word, [], by simp [htext]⟩
      rw [List.head?_cons, List.find?_cons_of_pos]
      rw [Bool.and_eq_true]
      exact ⟨isLine_trim_of_isInfix hline hleft, isLine_trim_of_isInfix hline hright⟩

/-- What decides how a text of one line splits: the first `or`, else the first `and`, else an
`array` at its end, else a `not` at its start. -/
theorem split?_of_line {text : List Char} (hline : '\n' ∉ text) :
    split? text =
      match cutAtWord? orWord none text with
      | some (left, right) => some (.or left right)
      | none =>
          match cutAtWord? andWord none text with
          | some (left, right) => some (.and left right)
          | none =>
              match beforeFinal? arrayWord text with
              | some inner => some (.arrayOf inner)
              | none => (afterInitial? notWord text).map Split.not := by
  have harray : (beforeFinal? arrayWord text).filter isLine = beforeFinal? arrayWord text := by
    cases hinner : beforeFinal? arrayWord text with
    | none => rfl
    | some inner =>
        refine Option.filter_some_pos (isLine_iff.mpr fun hmem => hline ?_)
        rw [eq_append_of_beforeFinal? hinner]
        exact List.mem_append_left arrayWord hmem
  have hnot : ((afterInitial? notWord text).filter fun inner => isLine (trim inner)) =
      afterInitial? notWord text := by
    cases hinner : afterInitial? notWord text with
    | none => rfl
    | some inner =>
        refine Option.filter_some_pos (isLine_trim_of_isInfix hline ?_)
        exact ⟨notWord, [], by simp [eq_append_of_afterInitial? hinner]⟩
  have hsplit := split?.eq_def text
  rw [cut?_of_line (by simp) hline, cut?_of_line (by simp) hline, harray, hnot] at hsplit
  exact hsplit

theorem split?_cases {text : List Char} (hline : '\n' ∉ text) :
    (∃ left right, cutAtWord? orWord none text = some (left, right) ∧
      split? text = some (.or left right)) ∨
    (Free orWord text ∧ ∃ left right, cutAtWord? andWord none text = some (left, right) ∧
      split? text = some (.and left right)) ∨
    (Free orWord text ∧ Free andWord text ∧ ∃ inner, beforeFinal? arrayWord text = some inner ∧
      split? text = some (.arrayOf inner)) ∨
    (Free orWord text ∧ Free andWord text ∧ beforeFinal? arrayWord text = none ∧
      ∃ inner, afterInitial? notWord text = some inner ∧ split? text = some (.not inner)) ∨
    (Free orWord text ∧ Free andWord text ∧ beforeFinal? arrayWord text = none ∧
      afterInitial? notWord text = none ∧ split? text = none) := by
  rw [split?_of_line hline]
  cases hor : cutAtWord? orWord none text with
  | some cut => exact Or.inl ⟨cut.1, cut.2, rfl, rfl⟩
  | none =>
      refine Or.inr ?_
      cases hand : cutAtWord? andWord none text with
      | some cut => exact Or.inl ⟨hor, cut.1, cut.2, rfl, rfl⟩
      | none =>
          refine Or.inr ?_
          cases harray : beforeFinal? arrayWord text with
          | some inner => exact Or.inl ⟨hor, hand, inner, rfl, rfl⟩
          | none =>
              refine Or.inr ?_
              cases hnot : afterInitial? notWord text with
              | some inner => exact Or.inl ⟨hor, hand, rfl, inner, rfl, rfl⟩
              | none => exact Or.inr ⟨hor, hand, rfl, rfl, rfl⟩

theorem split?_of_or {text left right : List Char} (hline : '\n' ∉ text)
    (h : cutAtWord? orWord none text = some (left, right)) :
    split? text = some (.or left right) := by
  rw [split?_of_line hline, h]

theorem split?_of_and {text left right : List Char} (hline : '\n' ∉ text) (hor : Free orWord text)
    (h : cutAtWord? andWord none text = some (left, right)) :
    split? text = some (.and left right) := by
  rw [Free] at hor
  rw [split?_of_line hline, hor, h]

theorem split?_of_array {text inner : List Char} (hline : '\n' ∉ text) (hor : Free orWord text)
    (hand : Free andWord text) (h : beforeFinal? arrayWord text = some inner) :
    split? text = some (.arrayOf inner) := by
  rw [Free] at hor hand
  rw [split?_of_line hline, hor, hand, h]

theorem split?_of_not {text inner : List Char} (hline : '\n' ∉ text) (hor : Free orWord text)
    (hand : Free andWord text) (harray : beforeFinal? arrayWord text = none)
    (h : afterInitial? notWord text = some inner) : split? text = some (.not inner) := by
  rw [Free] at hor hand
  rw [split?_of_line hline, hor, hand, harray, h]
  rfl

theorem split?_eq_none {text : List Char} (hor : Free orWord text) (hand : Free andWord text)
    (harray : beforeFinal? arrayWord text = none) (hnot : afterInitial? notWord text = none) :
    split? text = none := by
  rw [split?, cut?_of_free hor, cut?_of_free hand, harray, hnot]
  rfl

/-- A text in which every keyword is free does not split. -/
theorem split?_of_free {text : List Char} (h : ∀ word ∈ keywords, Free word text) :
    split? text = none := by
  simp only [keywords, List.forall_mem_cons] at h
  obtain ⟨hor, hand, hnot, harray, _⟩ := h
  exact split?_eq_none hor hand (harray.ends (by simp)).1 (hnot.ends (by simp)).2

/-- A text of one line that does not split has no keyword where one would count. -/
theorem of_split?_eq_none {text : List Char} (hline : '\n' ∉ text) (h : split? text = none) :
    Free orWord text ∧ Free andWord text ∧ beforeFinal? arrayWord text = none ∧
      afterInitial? notWord text = none := by
  rcases split?_cases hline with ⟨_, _, _, heq⟩ | ⟨_, _, _, _, heq⟩ | ⟨_, _, _, _, heq⟩ |
    ⟨_, _, _, _, _, heq⟩ | ⟨hor, hand, harray, hnot, _⟩
  · rw [heq] at h
    cases h
  · rw [heq] at h
    cases h
  · rw [heq] at h
    cases h
  · rw [heq] at h
    cases h
  · exact ⟨hor, hand, harray, hnot⟩

/-- The end of a stretch of a word is no boundary. -/
theorem eq_nil_of_isBoundary_getLast? {text : List Char} (hall : ∀ c ∈ text, isWord c = true)
    (h : isBoundary text.getLast? = true) : text = [] := by
  apply List.getLast?_eq_none_iff.mp
  cases hlast : text.getLast? with
  | none => rfl
  | some c => simp [hlast, isBoundary_some, hall c (List.mem_of_getLast? hlast)] at h

theorem eq_nil_of_isBoundary_head? {text rest : List Char} (hall : ∀ c ∈ text, isWord c = true)
    (h : isBoundary (text ++ rest).head? = true) : text = [] := by
  cases text with
  | nil => rfl
  | cons c text => simp [isBoundary_some, hall c List.mem_cons_self] at h

/-- Between word characters the only boundaries are the two ends of a text. -/
theorem eq_of_boundaries {word text before after : List Char}
    (hall : ∀ c ∈ text, isWord c = true) (htext : text = before ++ word ++ after)
    (hleft : isBoundary before.getLast? = true) (hright : isBoundary after.head? = true) :
    text = word := by
  have hbefore : before = [] :=
    eq_nil_of_isBoundary_getLast? (fun c hc => hall c (by simp [htext, hc])) hleft
  rw [← List.append_nil after] at hright
  have hafter : after = [] :=
    eq_nil_of_isBoundary_head? (fun c hc => hall c (by simp [htext, hc])) hright
  rw [htext, hbefore, hafter, List.nil_append, List.append_nil]

/-- A word is free of another one. -/
theorem free_of_all_isWord {word text : List Char} (hword : word ≠ [])
    (hall : ∀ c ∈ text, isWord c = true) (hne : text ≠ word) : Free word text := by
  rw [free_iff hword]
  intro before after htext hleft
  rw [Bool.eq_false_iff]
  intro hright
  exact hne (eq_of_boundaries hall htext hleft hright)

/-- A word in the wide sense that is no keyword does not split. -/
theorem split?_of_all_isWord {text : List Char} (hall : ∀ c ∈ text, isWord c = true)
    (hkeyword : text ∉ keywords) : split? text = none := by
  have hwords : ∀ word ∈ keywords, word ≠ [] := by decide
  apply split?_of_free
  intro word hword
  apply free_of_all_isWord (hwords word hword) hall
  rintro rfl
  exact hkeyword hword

/-- An operand word does not split. -/
theorem split?_of_isOperandWord {name : String} (h : IsOperandWord name) :
    split? name.toList = none := by
  obtain ⟨hplain, hkeyword⟩ := h
  rw [isPlainWord, Bool.and_eq_true] at hplain
  exact split?_of_all_isWord
    (fun c hc => isWord_of_isPlain (List.all_eq_true.mp hplain.2 c hc)) hkeyword

end Switchboard.Parser
