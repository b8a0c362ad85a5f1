import Switchboard.Proofs.FlatText

/-!
A keyword between two texts, as normal spelling puts it there. A blank is kept between
the keyword and a plain word character, and is dropped beside any other character. So a
word character that is not plain runs into the keyword, which then stands between no
boundaries and is not seen. In all other cases the text reads as the operator applied to
what the two texts read as; for each operator this is an equivalence.
-/

namespace Switchboard

open Text
open Switchboard.Spelling (glue weighed)

namespace Text

/-- A word character of another script: it bounds no keyword, and no blank is kept between
it and a keyword. -/
def isWide (c : Char) : Bool :=
  isWord c && !isPlain c

def startsWide (text : List Char) : Bool :=
  text.head?.any isWide

def endsWide (text : List Char) : Bool :=
  text.getLast?.any isWide

end Text

namespace Spelling

/-- A word between two texts, with weighed blanks where they meet. -/
def between (before word after : List Char) : List Char :=
  glue (glue before word) after

/-- The blank between a keyword and its neighbour, by what is plain there. -/
def gapBeside (plain : Option Bool) : List Char :=
  if plain = some true then [' '] else []

theorem gapBeside_cases (plain : Option Bool) : gapBeside plain = [] ∨ gapBeside plain = [' '] := by
  rw [gapBeside]
  split
  · exact Or.inr rfl
  · exact Or.inl rfl

theorem glue_keyword (operator : Operator) (before : List Char) :
    glue before operator.keyword =
      before ++ gapBeside (before.getLast?.map isPlain) ++ operator.keyword := by
  obtain ⟨k, ks, hkeyword, hplain⟩ : ∃ k ks, operator.keyword = k :: ks ∧ isPlain k = true := by
    cases operator <;> exact ⟨_, _, rfl, by decide⟩
  cases hlast : before.getLast? with
  | none =>
      rw [List.getLast?_eq_none_iff] at hlast
      subst hlast
      rfl
  | some last =>
      cases hc : isPlain last <;> simp [glue, hlast, hkeyword, weighed, gapBeside, hc, hplain]

theorem glue_keyword_left (operator : Operator) (front after : List Char) :
    glue (front ++ operator.keyword) after =
      front ++ operator.keyword ++ (gapBeside (after.head?.map isPlain) ++ after) := by
  obtain ⟨k, hkeyword, hplain⟩ : ∃ k, operator.keyword.getLast? = some k ∧ isPlain k = true := by
    cases operator <;> exact ⟨_, rfl, by decide⟩
  have hlast : (front ++ operator.keyword).getLast? = some k := by
    rw [List.getLast?_append, hkeyword]
    rfl
  cases after with
  | nil => simp [glue, hlast, weighed, gapBeside]
  | cons c rest => cases hc : isPlain c <;> simp [glue, hlast, weighed, gapBeside, hc, hplain]

/-- A keyword keeps a space from plain word characters, and no other one. -/
theorem between_keyword (operator : Operator) (before after : List Char) :
    between before operator.keyword after =
      before ++ gapBeside (before.getLast?.map isPlain) ++
        (operator.keyword ++ (gapBeside (after.head?.map isPlain) ++ after)) := by
  rw [between, glue_keyword, glue_keyword_left, List.append_assoc (before ++ _)]

/-- What is plain at the two ends of a text with a keyword in it. -/
theorem getLast?_between (operator : Operator) (before after : List Char) :
    (between before operator.keyword after).getLast?.map isPlain =
      (after.getLast?.map isPlain).or (some true) := by
  obtain ⟨k, hkeyword, hplain⟩ : ∃ k, operator.keyword.getLast? = some k ∧ isPlain k = true := by
    cases operator <;> exact ⟨_, rfl, by decide⟩
  rw [between_keyword, List.getLast?_append, List.getLast?_append, List.getLast?_append, hkeyword]
  cases hlast : after.getLast? with
  | none =>
      rw [List.getLast?_eq_none_iff.mp hlast]
      simp [gapBeside, hplain]
  | some c => simp

theorem head?_between (operator : Operator) (before after : List Char) :
    (between before operator.keyword after).head?.map isPlain =
      (before.head?.map isPlain).or (some true) := by
  obtain ⟨k, hkeyword, hplain⟩ : ∃ k, operator.keyword.head? = some k ∧ isPlain k = true := by
    cases operator <;> exact ⟨_, rfl, by decide⟩
  rw [between_keyword, List.head?_append, List.head?_append, List.head?_append, hkeyword]
  cases hhead : before.head? with
  | none =>
      rw [List.head?_eq_none_iff.mp hhead]
      simp [gapBeside, hplain]
  | some c => simp

theorem notMem_between {c : Char} (hc : c ≠ ' ') {operator : Operator}
    (hkeyword : c ∉ operator.keyword) {before after : List Char} (hbefore : c ∉ before)
    (hafter : c ∉ after) : c ∉ between before operator.keyword after := by
  have hgap (plain : Option Bool) : c ∉ gapBeside plain := by
    rcases gapBeside_cases plain with hgap | hgap <;> simp [hgap, hc]
  rw [between_keyword]
  simp [hgap, hkeyword, hbefore, hafter]

theorem lineFeed_notMem_between (operator : Operator) {before after : List Char}
    (hbefore : '\n' ∉ before) (hafter : '\n' ∉ after) :
    '\n' ∉ between before operator.keyword after :=
  notMem_between (by decide) (Parser.lineFeed_notMem_keyword operator) hbefore hafter

theorem getLast?_append_gapBeside (before : List Char) :
    (∀ c ∈ (before ++ gapBeside (before.getLast?.map isPlain)).getLast?, isPlain c = false) ∧
      isBoundary (before ++ gapBeside (before.getLast?.map isPlain)).getLast? =
        !endsWide before := by
  have hspace : isBlank ' ' = true := by decide
  cases hlast : before.getLast? with
  | none =>
      rw [List.getLast?_eq_none_iff] at hlast
      subst hlast
      exact ⟨by simp [gapBeside], rfl⟩
  | some last =>
      cases hc : isPlain last with
      | true =>
          rw [Option.map_some, hc, gapBeside, if_pos rfl, List.getLast?_concat, endsWide, hlast,
            Option.any_some, isWide, hc]
          refine ⟨?_, by simp [Parser.isBoundary_some, isWord_eq_false_of_isBlank hspace]⟩
          rintro c ⟨⟩
          decide
      | false =>
          rw [Option.map_some, hc, gapBeside, if_neg (by simp), List.append_nil, hlast, endsWide,
            hlast, Option.any_some, isWide, hc]
          refine ⟨?_, by simp [Parser.isBoundary_some]⟩
          rintro c ⟨⟩
          exact hc

theorem head?_gapBeside_append (after : List Char) :
    (∀ c ∈ (gapBeside (after.head?.map isPlain) ++ after).head?, isPlain c = false) ∧
      isBoundary (gapBeside (after.head?.map isPlain) ++ after).head? = !startsWide after := by
  have hspace : isBlank ' ' = true := by decide
  cases after with
  | nil => exact ⟨by simp [gapBeside], rfl⟩
  | cons c rest =>
      cases hc : isPlain c with
      | true =>
          rw [List.head?_cons, Option.map_some, hc, gapBeside, if_pos rfl, startsWide,
            List.head?_cons, Option.any_some, isWide, hc]
          refine ⟨?_, by simp [Parser.isBoundary_some, isWord_eq_false_of_isBlank hspace]⟩
          rintro d ⟨⟩
          decide
      | false =>
          rw [List.head?_cons, Option.map_some, hc, gapBeside, if_neg (by simp), startsWide,
            List.head?_cons, Option.any_some, isWide, hc]
          refine ⟨?_, by simp [Parser.isBoundary_some]⟩
          rintro d ⟨⟩
          exact hc

end Spelling

namespace Parser

open Spelling

/-! What a text without a name or a group in its place is read as -/

section Inversion

variable {defined : String → Bool} {groups : List Expr} {text : List Char}
  {left right inner : Expr}

theorem parseFlat_of_split? (hundefined : defined (String.ofList (trim text)) = false)
    (hfind : Groups.find? groups (trim text) = none) :
    parseFlat defined groups text =
      ((split? (trim text)).map (Split.tree (parseFlat defined groups))).getD
        (.named (String.ofList (trim text))) := by
  cases hsplit : split? (trim text) with
  | none => rw [parseFlat, parseTrimmed_of_no_split hfind hsplit]; rfl
  | some split => rw [parseFlat, parseTrimmed_of_split hundefined hfind hsplit]; rfl

theorem parseFlat_eq_or_iff (hline : '\n' ∉ trim text)
    (hundefined : defined (String.ofList (trim text)) = false)
    (hfind : Groups.find? groups (trim text) = none) :
    parseFlat defined groups text = .or left right ↔
      ∃ before after, cutAtWord? orWord none (trim text) = some (before, after) ∧
        parseFlat defined groups before = left ∧ parseFlat defined groups after = right := by
  rw [parseFlat_of_split? hundefined hfind]
  rcases split?_cases hline with ⟨before, after, hcut, heq⟩ | ⟨hor, before, after, hcut, heq⟩ |
    ⟨hor, _, before, hcut, heq⟩ | ⟨hor, _, _, before, hcut, heq⟩ | ⟨hor, _, _, _, heq⟩
  · simp [heq, hcut, Split.tree]
  all_goals
    rw [Free] at hor
    simp [heq, hor, Split.tree]

theorem parseFlat_eq_and_iff (hline : '\n' ∉ trim text)
    (hundefined : defined (String.ofList (trim text)) = false)
    (hfind : Groups.find? groups (trim text) = none) (hor : Free orWord (trim text)) :
    parseFlat defined groups text = .and left right ↔
      ∃ before after, cutAtWord? andWord none (trim text) = some (before, after) ∧
        parseFlat defined groups before = left ∧ parseFlat defined groups after = right := by
  rw [parseFlat_of_split? hundefined hfind]
  rcases split?_cases hline with ⟨before, after, hcut, heq⟩ | ⟨_, before, after, hcut, heq⟩ |
    ⟨_, hand, before, hcut, heq⟩ | ⟨_, hand, _, before, hcut, heq⟩ | ⟨_, hand, _, _, heq⟩
  · rw [Free, hcut] at hor
    cases hor
  · simp [heq, hcut, Split.tree]
  all_goals
    rw [Free] at hand
    simp [heq, hand, Split.tree]

theorem parseFlat_eq_arrayOf_iff (hline : '\n' ∉ trim text)
    (hundefined : defined (String.ofList (trim text)) = false)
    (hfind : Groups.find? groups (trim text) = none) (hor : Free orWord (trim text))
    (hand : Free andWord (trim text)) :
    parseFlat defined groups text = .arrayOf inner ↔
      ∃ before, beforeFinal? arrayWord (trim text) = some before ∧
        parseFlat defined groups before = inner := by
  rw [parseFlat_of_split? hundefined hfind]
  rcases split?_cases hline with ⟨before, after, hcut, heq⟩ | ⟨_, before, after, hcut, heq⟩ |
    ⟨_, _, before, hcut, heq⟩ | ⟨_, _, harray, before, hcut, heq⟩ | ⟨_, _, harray, _, heq⟩
  · rw [Free, hcut] at hor
    cases hor
  · rw [Free, hcut] at hand
    cases hand
  · simp [heq, hcut, Split.tree]
  · simp [heq, harray, Split.tree]
  · simp [heq, harray]

theorem parseFlat_eq_not_iff (hline : '\n' ∉ trim text)
    (hundefined : defined (String.ofList (trim text)) = false)
    (hfind : Groups.find? groups (trim text) = none) (hor : Free orWord (trim text))
    (hand : Free andWord (trim text)) :
    parseFlat defined groups text = .not inner ↔
      beforeFinal? arrayWord (trim text) = none ∧
      ∃ after, afterInitial? notWord (trim text) = some after ∧
        parseFlat defined groups after = inner := by
  rw [parseFlat_of_split? hundefined hfind]
  rcases split?_cases hline with ⟨before, after, hcut, heq⟩ | ⟨_, before, after, hcut, heq⟩ |
    ⟨_, _, before, hcut, heq⟩ | ⟨_, _, harray, before, hcut, heq⟩ | ⟨_, _, harray, hnot, heq⟩
  · rw [Free, hcut] at hor
    cases hor
  · rw [Free, hcut] at hand
    cases hand
  · simp [heq, hcut, Split.tree]
  · simp [heq, harray, hcut, Split.tree]
  · simp [heq, harray, hnot]

end Inversion

/-- The names that are defined are plain words, and of the keywords only `array` is one
of them. -/
structure ArrayNamed (defined : String → Bool) : Prop where
  plain : ∀ name, defined name = true → isPlainWord name = true
  keyword : ∀ operator : Operator,
    defined (String.ofList operator.keyword) = true ↔ operator = .array

/-! A keyword between two texts -/

/-- A text as an operator between two texts, and what is left and right of the keyword. -/
structure Spaced (operator : Operator) (before after text left right : List Char) : Prop where
  text_eq : text = left ++ (operator.keyword ++ right)
  trim_left : trim left = trim before
  trim_right : trim right = trim after
  last : ∀ c ∈ left.getLast?, isPlain c = false
  head : ∀ c ∈ right.head?, isPlain c = false
  boundary_left : isBoundary left.getLast? = !endsWide before
  boundary_right : isBoundary right.head? = !startsWide after

theorem exists_spaced (operator : Operator) (before after : List Char) :
    ∃ left right, Spaced operator before after (between before operator.keyword after)
      left right := by
  have htrim (plain : Option Bool) (text : List Char) :
      trim (text ++ gapBeside plain) = trim text ∧ trim (gapBeside plain ++ text) = trim text := by
    rcases gapBeside_cases plain with hgap | hgap
    · rw [hgap, List.append_nil, List.nil_append]
      exact ⟨rfl, rfl⟩
    · rw [hgap]
      exact ⟨trim_concat_of_isBlank (by decide) text, trim_cons_of_isBlank (by decide) text⟩
  obtain ⟨hlast, hleft⟩ := getLast?_append_gapBeside before
  obtain ⟨hhead, hright⟩ := head?_gapBeside_append after
  exact ⟨_, _, between_keyword operator before after, (htrim _ before).1, (htrim _ after).2,
    hlast, hhead, hleft, hright⟩

namespace Spaced

variable {operator : Operator} {before after text left right : List Char}

theorem trim_eq (h : Spaced operator before after text left right) :
    trim text = trimStart left ++ operator.keyword ++ trimEnd right := by
  rw [h.text_eq, trim_append_keyword]

theorem notMem_keyword (h : Spaced operator before after text left right) (other : Operator) :
    (∀ c ∈ left.getLast?, c ∉ other.keyword) ∧ (∀ c ∈ right.head?, c ∉ other.keyword) := by
  have hplain : ∀ c ∈ other.keyword, isPlain c = true :=
    List.all_eq_true.mp (by cases other <;> rfl)
  refine ⟨fun c hc hmem => ?_, fun c hc hmem => ?_⟩
  · have hfalse := h.last c hc
    rw [hplain c hmem] at hfalse
    cases hfalse
  · have hfalse := h.head c hc
    rw [hplain c hmem] at hfalse
    cases hfalse

theorem free_sides (h : Spaced operator before after text left right) {other : Operator}
    (hbefore : Free other.keyword before) (hafter : Free other.keyword after) :
    Free other.keyword left ∧ Free other.keyword right := by
  have hne := keyword_ne_nil other
  refine ⟨Free.of_trim other ?_, Free.of_trim other ?_⟩
  · rw [h.trim_left]
    exact hbefore.to_trim hne
  · rw [h.trim_right]
    exact hafter.to_trim hne

/-- Another keyword is free in the whole if it is free on both sides. -/
theorem free (h : Spaced operator before after text left right) (other : Operator)
    (hne : operator ≠ other) (hbefore : Free other.keyword before)
    (hafter : Free other.keyword after) : Free other.keyword text := by
  have hword := keyword_ne_nil other
  obtain ⟨hleft, hright⟩ := h.free_sides hbefore hafter
  have hkeyword : Free other.keyword operator.keyword :=
    free_of_all_isWord hword (isWord_of_mem_keyword operator) (keyword_injective.ne hne)
  rw [h.text_eq]
  apply hleft.append_of_notMem hword
  · exact hkeyword.append_of_notMem hword hright (Or.inr (h.notMem_keyword other).2)
  · exact Or.inl (h.notMem_keyword other).1

/-- A keyword beside a wide character is not seen. -/
theorem free_of_wide (h : Spaced operator before after text left right)
    (hbefore : Free operator.keyword before) (hafter : Free operator.keyword after)
    (hwide : ¬ (endsWide before = false ∧ startsWide after = false)) :
    Free operator.keyword text := by
  obtain ⟨hleft, hright⟩ := h.free_sides hbefore hafter
  rw [h.text_eq, ← List.append_assoc]
  refine free_of_blocked (keyword_ne_nil operator) hleft hright (h.notMem_keyword operator).1
    (h.notMem_keyword operator).2 ?_
  rw [h.boundary_left, h.boundary_right]
  revert hwide
  cases endsWide before <;> cases startsWide after <;> simp

/-- A keyword stands between boundaries unless a wide character is beside it. -/
theorem boundaries (h : Spaced operator before after text left right)
    (hbefore : endsWide before = false) (hafter : startsWide after = false) :
    isBoundary (trimStart left).getLast? = true ∧ isBoundary (trimEnd right).head? = true := by
  rw [isBoundary_getLast?_trimStart, isBoundary_head?_trimEnd, h.boundary_left,
    h.boundary_right, hbefore, hafter]
  exact ⟨rfl, rfl⟩

theorem find?_eq_none (h : Spaced operator before after text left right) (groups : List Expr) :
    Groups.find? groups (trim text) = none := by
  obtain ⟨c, hc, hletter⟩ : ∃ c ∈ operator.keyword, c.isAlpha = true :=
    List.any_eq_true.mp (by cases operator <;> rfl)
  apply Groups.find?_eq_none_of_mem _ hletter
  rw [h.trim_eq]
  simp [hc]

/-- A text with an operator is no name, unless it is the bare word `array`. -/
theorem undefined {defined : String → Bool} (hnames : ArrayNamed defined)
    (h : Spaced operator before after text left right)
    (hne : operator = .array → trim before ≠ []) :
    defined (String.ofList (trim text)) = false := by
  rw [Bool.eq_false_iff]
  intro hdefined
  have hplain := hnames.plain _ hdefined
  rw [isPlainWord, String.toList_ofList, Bool.and_eq_true, h.trim_eq, List.all_append,
    List.all_append, Bool.and_eq_true, Bool.and_eq_true] at hplain
  obtain ⟨_, ⟨hleft, _⟩, hright⟩ := hplain
  have hstart : trimStart left = [] := by
    rw [← List.getLast?_eq_none_iff]
    obtain ⟨init, hinit⟩ := trimStart_isSuffix left
    cases hlast : (trimStart left).getLast? with
    | none => rfl
    | some c =>
        have hc := h.last c (by rw [← hinit, List.getLast?_append, hlast]; rfl)
        rw [List.all_eq_true.mp hleft c (List.mem_of_getLast? hlast)] at hc
        cases hc
  have hend : trimEnd right = [] := by
    obtain ⟨tail, htail⟩ := trimEnd_isPrefix right
    cases hhead : trimEnd right with
    | nil => rfl
    | cons c rest =>
        have hc := h.head c (by rw [← htail, hhead]; rfl)
        rw [List.all_eq_true.mp hright c (by simp [hhead])] at hc
        cases hc
  rw [h.trim_eq, hstart, hend, List.nil_append, List.append_nil] at hdefined
  apply hne ((hnames.keyword operator).mp hdefined)
  rw [← h.trim_left, ← trim_trimStart, hstart]
  rfl

theorem parseFlat_sides (h : Spaced operator before after text left right)
    (defined : String → Bool) (groups : List Expr) :
    parseFlat defined groups (trimStart left) = parseFlat defined groups before ∧
      parseFlat defined groups (trimEnd right) = parseFlat defined groups after := by
  rw [parseFlat, parseFlat, parseFlat, parseFlat, trim_trimStart, trim_trimEnd, h.trim_left,
    h.trim_right]
  exact ⟨rfl, rfl⟩

/-- A text is cut at the keyword if no wide character is beside it, and at no other place
of that keyword. -/
theorem exists_cut_iff (h : Spaced operator before after text left right)
    (hbefore : Free operator.keyword before) (hafter : Free operator.keyword after)
    (defined : String → Bool) (groups : List Expr) (tree tree' : Expr) :
    (∃ front back, cutAtWord? operator.keyword none (trim text) = some (front, back) ∧
      parseFlat defined groups front = tree ∧ parseFlat defined groups back = tree') ↔
    (endsWide before = false ∧ startsWide after = false) ∧
      parseFlat defined groups before = tree ∧ parseFlat defined groups after = tree' := by
  obtain ⟨hfront, hback⟩ := h.parseFlat_sides defined groups
  have hword := keyword_ne_nil operator
  by_cases hwide : endsWide before = false ∧ startsWide after = false
  · obtain ⟨hleft, hright⟩ := h.boundaries hwide.1 hwide.2
    have hfree : Free operator.keyword (trimStart left) := by
      apply Free.of_trim
      rw [trim_trimStart, h.trim_left]
      exact hbefore.to_trim hword
    have hcut : cutAtWord? operator.keyword none (trim text) =
        some (trimStart left, trimEnd right) := by
      rw [h.trim_eq]
      exact cutAtWord?_append hword (isWord_of_mem_keyword operator) hfree
        (by rwa [Option.or_none]) hright
    rw [hcut, ← hfront, ← hback]
    simp [hwide]
  · have hfree := (h.free_of_wide hbefore hafter hwide).to_trim hword
    rw [Free] at hfree
    rw [hfree]
    simp [hwide]

end Spaced

section Reading

variable {defined : String → Bool} {before after : List Char} {left right inner : Expr}

theorem parseFlat_between_or_iff (hnames : ArrayNamed defined) (groups : List Expr)
    (hline : '\n' ∉ before) (hline' : '\n' ∉ after)
    (hbefore : Free orWord before) (hafter : Free orWord after) :
    parseFlat defined groups (between before orWord after) = .or left right ↔
      (endsWide before = false ∧ startsWide after = false) ∧
        parseFlat defined groups before = left ∧ parseFlat defined groups after = right := by
  obtain ⟨front, back, h⟩ : ∃ front back,
      Spaced .or before after (between before orWord after) front back := exists_spaced .or _ _
  have hlines : '\n' ∉ trim (between before orWord after) :=
    lineFeed_notMem_trim (lineFeed_notMem_between .or hline hline')
  rw [parseFlat_eq_or_iff hlines (h.undefined hnames (by simp)) (h.find?_eq_none groups)]
  exact h.exists_cut_iff hbefore hafter defined groups left right

theorem parseFlat_between_and_iff (hnames : ArrayNamed defined) (groups : List Expr)
    (hline : '\n' ∉ before) (hline' : '\n' ∉ after)
    (hor : Free orWord before) (hor' : Free orWord after) (hbefore : Free andWord before)
    (hafter : Free andWord after) :
    parseFlat defined groups (between before andWord after) = .and left right ↔
      (endsWide before = false ∧ startsWide after = false) ∧
        parseFlat defined groups before = left ∧ parseFlat defined groups after = right := by
  obtain ⟨front, back, h⟩ : ∃ front back,
      Spaced .and before after (between before andWord after) front back := exists_spaced .and _ _
  have hfree : Free orWord (trim (between before andWord after)) :=
    (h.free .or (by simp) hor hor').to_trim (keyword_ne_nil .or)
  have hlines : '\n' ∉ trim (between before andWord after) :=
    lineFeed_notMem_trim (lineFeed_notMem_between .and hline hline')
  rw [parseFlat_eq_and_iff hlines (h.undefined hnames (by simp)) (h.find?_eq_none groups) hfree]
  exact h.exists_cut_iff hbefore hafter defined groups left right

/-- An array type is read unless its operand is empty: the bare word is a name. -/
theorem parseFlat_between_array_iff (hnames : ArrayNamed defined) (groups : List Expr)
    (hline : '\n' ∉ before)
    (hor : Free orWord before) (hand : Free andWord before) :
    parseFlat defined groups (between before arrayWord []) = .arrayOf inner ↔
      trim before ≠ [] ∧ endsWide before = false ∧ parseFlat defined groups before = inner := by
  obtain ⟨front, back, h⟩ : ∃ front back,
      Spaced .array before [] (between before arrayWord []) front back := exists_spaced .array _ _
  have hback : trimEnd back = [] := trimEnd_eq_nil h.trim_right
  have htext : trim (between before arrayWord []) = trimStart front ++ arrayWord := by
    rw [h.trim_eq, hback, List.append_nil]
    rfl
  by_cases hne : trim before = []
  · have hword : trim (between before arrayWord []) = arrayWord := by
      rw [htext, trimStart_eq_nil (h.trim_left.trans hne), List.nil_append]
    have hdefined : defined (String.ofList arrayWord) = true :=
      (hnames.keyword .array).mpr rfl
    rw [parseFlat, hword, parseTrimmed_of_defined hdefined]
    simp [hne]
  · have hor' : Free orWord (trim (between before arrayWord [])) :=
      (h.free .or (by simp) hor (free_nil _)).to_trim (keyword_ne_nil .or)
    have hand' : Free andWord (trim (between before arrayWord [])) :=
      (h.free .and (by simp) hand (free_nil _)).to_trim (keyword_ne_nil .and)
    have hsplit (inner' : List Char) :
        beforeFinal? arrayWord (trim (between before arrayWord [])) = some inner' ↔
          trimStart front = inner' ∧ endsWide before = false := by
      rw [beforeFinal?_eq_some_iff, htext, List.append_cancel_right_eq]
      refine and_congr_right fun heq => ?_
      rw [← heq, isBoundary_getLast?_trimStart, h.boundary_left, Bool.not_eq_true']
    have hlines : '\n' ∉ trim (between before arrayWord []) :=
      lineFeed_notMem_trim (lineFeed_notMem_between .array hline List.not_mem_nil)
    rw [parseFlat_eq_arrayOf_iff hlines (h.undefined hnames fun _ => hne) (h.find?_eq_none groups)
      hor' hand', ← (h.parseFlat_sides defined groups).1]
    simp only [hsplit]
    constructor
    · rintro ⟨_, ⟨rfl, hwide⟩, htree⟩
      exact ⟨hne, hwide, htree⟩
    · rintro ⟨_, hwide, htree⟩
      exact ⟨_, ⟨rfl, hwide⟩, htree⟩

theorem beforeFinal?_between_not (after : List Char) :
    beforeFinal? arrayWord (trim (between [] notWord after)) = none ↔
      beforeFinal? arrayWord (trim after) = none := by
  obtain ⟨front, back, h⟩ : ∃ front back,
      Spaced .not [] after (between [] notWord after) front back := exists_spaced .not _ _
  have htext : trim (between [] notWord after) = notWord ++ trimEnd back := by
    rw [h.trim_eq, trimStart_eq_nil h.trim_left]
    rfl
  rw [htext, beforeFinal?_not_append h.head, h.trim_right]

theorem parseFlat_between_not_iff (hnames : ArrayNamed defined) (groups : List Expr)
    (hline : '\n' ∉ after)
    (hor : Free orWord after) (hand : Free andWord after) :
    parseFlat defined groups (between [] notWord after) = .not inner ↔
      startsWide after = false ∧ beforeFinal? arrayWord (trim after) = none ∧
        parseFlat defined groups after = inner := by
  obtain ⟨front, back, h⟩ : ∃ front back,
      Spaced .not [] after (between [] notWord after) front back := exists_spaced .not _ _
  have htext : trim (between [] notWord after) = notWord ++ trimEnd back := by
    rw [h.trim_eq, trimStart_eq_nil h.trim_left]
    rfl
  have hor' : Free orWord (trim (between [] notWord after)) :=
    (h.free .or (by simp) (free_nil _) hor).to_trim (keyword_ne_nil .or)
  have hand' : Free andWord (trim (between [] notWord after)) :=
    (h.free .and (by simp) (free_nil _) hand).to_trim (keyword_ne_nil .and)
  have hsplit (inner' : List Char) :
      afterInitial? notWord (trim (between [] notWord after)) = some inner' ↔
        trimEnd back = inner' ∧ startsWide after = false := by
    rw [afterInitial?_eq_some_iff, htext, List.append_cancel_left_eq]
    refine and_congr_right fun heq => ?_
    rw [← heq, isBoundary_head?_trimEnd, h.boundary_right, Bool.not_eq_true']
  have hlines : '\n' ∉ trim (between [] notWord after) :=
    lineFeed_notMem_trim (lineFeed_notMem_between .not List.not_mem_nil hline)
  rw [parseFlat_eq_not_iff hlines (h.undefined hnames (by simp)) (h.find?_eq_none groups) hor'
    hand', ← (h.parseFlat_sides defined groups).2, beforeFinal?_between_not]
  simp only [hsplit]
  constructor
  · rintro ⟨harray, _, ⟨rfl, hwide⟩, htree⟩
    exact ⟨hwide, harray, htree⟩
  · rintro ⟨hwide, harray, htree⟩
    exact ⟨harray, _, ⟨rfl, hwide⟩, htree⟩

end Reading

end Parser

end Switchboard
