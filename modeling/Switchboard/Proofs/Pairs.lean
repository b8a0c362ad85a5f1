import Switchboard.Proofs.Printing.RoundTrip

/-!
How long the reading of a text takes. Taking out a group puts a longer text in its place as
often as not, so the length of the text does not bound the loop. What it does take away is one
pair of parentheses, and it leaves all other pairs as they were: the loop runs once for each
pair that a closing parenthesis forms with the nearest unpaired opening one before it, whatever
stands unpaired beside them. A flat text is read by its parts, each of which lacks at least the
keyword that it was split at.
-/

namespace Switchboard

open Text

namespace Groups

/-- The pairs of parentheses in a text that starts at a position, by their own positions and in
the order in which they close. Each closing parenthesis is paired with the nearest opening one
before it that has no partner yet; `unpaired` are those before the text, the nearest first. -/
def pairsFrom (unpaired : List Nat) (position : Nat) : List Char → List (Nat × Nat)
  | [] => []
  | c :: rest =>
      if c = '(' then pairsFrom (position :: unpaired) (position + 1) rest
      else if c = ')' then
        (unpaired.head?.map fun opening => (opening, position)).toList ++
          pairsFrom unpaired.tail (position + 1) rest
      else pairsFrom unpaired (position + 1) rest

/-- The matched pairs of parentheses in a text. -/
def pairs (text : List Char) : List (Nat × Nat) :=
  pairsFrom [] 0 text

example : pairs ")a(b(c)(d".toList = [(4, 6)] := by decide

/-- The loop that takes out groups, with the number of times that its body runs: each time it
reads the first group without a group inside, adds it to the groups, and puts a placeholder in
its place. -/
inductive Loop (parse : List Expr → List Char → Expr) :
    Nat → List Expr → List Char → List Expr → List Char → Prop
  | done {groups : List Expr} {text : List Char} (h : innermost? text = none) :
      Loop parse 0 groups text groups text
  | body {count : Nat} {groups groups' : List Expr} {text before inner after flat : List Char}
      (h : innermost? text = some (before, inner, after))
      (hrest : Loop parse count (groups ++ [parse groups (trim inner)])
        (replaceGroup groups.length before after) groups' flat) :
      Loop parse (count + 1) groups text groups' flat

/-- How many pairs close in a text with so many unpaired parentheses before it. -/
def pairCount (unpaired : Nat) : List Char → Nat
  | [] => 0
  | c :: rest =>
      if c = '(' then pairCount (unpaired + 1) rest
      else if c = ')' then min unpaired 1 + pairCount (unpaired - 1) rest
      else pairCount unpaired rest

theorem length_pairsFrom (unpaired : List Nat) (position : Nat) (text : List Char) :
    (pairsFrom unpaired position text).length = pairCount unpaired.length text := by
  induction text generalizing unpaired position with
  | nil => rfl
  | cons c rest ih =>
      rw [pairsFrom, pairCount]
      split
      · exact ih (position :: unpaired) (position + 1)
      · split
        · rw [List.length_append, ih, List.length_tail]
          refine congrArg (· + pairCount (unpaired.length - 1) rest) ?_
          cases unpaired with
          | nil => rfl
          | cons opening others =>
              rw [List.length_cons]
              exact (Nat.min_eq_right (Nat.le_add_left 1 others.length)).symm
        · exact ih unpaired (position + 1)

theorem length_pairs (text : List Char) : (pairs text).length = pairCount 0 text :=
  length_pairsFrom [] 0 text

/-- How many pairs there are is seen from the parentheses alone. -/
theorem pairCount_parens (unpaired : Nat) (text : List Char) :
    pairCount unpaired (parens text) = pairCount unpaired text := by
  induction text generalizing unpaired with
  | nil => rfl
  | cons c rest ih =>
      by_cases hopen : c = '('
      · subst hopen
        exact ih (unpaired + 1)
      · by_cases hclose : c = ')'
        · subst hclose
          exact congrArg (min unpaired 1 + ·) (ih (unpaired - 1))
        · have hparens : parens (c :: rest) = parens rest := by simp [parens, hopen, hclose]
          rw [hparens, pairCount, if_neg hopen, if_neg hclose, ih]

theorem pairCount_congr {text text' : List Char} (h : parens text = parens text')
    (unpaired : Nat) : pairCount unpaired text = pairCount unpaired text' := by
  rw [← pairCount_parens, h, pairCount_parens]

/-- A parenthesis that closes next after an opening one is paired with it, and neither takes part
in another pair. -/
theorem pairCount_group {inner : List Char} (hinner : parens inner = []) (unpaired : Nat)
    (before after : List Char) :
    pairCount unpaired (before ++ '(' :: inner ++ ')' :: after) =
      pairCount unpaired (before ++ after) + 1 := by
  rw [List.append_assoc]
  induction before generalizing unpaired with
  | nil =>
      have hskip : pairCount (unpaired + 1) (inner ++ ')' :: after) =
          pairCount (unpaired + 1) (')' :: after) :=
        pairCount_congr (by rw [parens_append, hinner, List.nil_append]) _
      have hclose : pairCount (unpaired + 1) (')' :: after) = pairCount unpaired after + 1 := by
        rw [pairCount, if_neg (by decide), if_pos rfl, Nat.add_sub_cancel, Nat.add_comm,
          Nat.min_eq_right (Nat.le_add_left 1 unpaired)]
      rw [List.nil_append, List.nil_append, List.cons_append, pairCount, if_pos rfl, hskip, hclose]
  | cons c rest ih =>
      rw [List.cons_append (a := c), List.cons_append (a := c), pairCount, pairCount]
      split
      · exact ih (unpaired + 1)
      · split
        · rw [ih (unpaired - 1), Nat.add_assoc]
        · exact ih unpaired

theorem parens_trim (text : List Char) : parens (trim text) = parens text := by
  rw [← parens_inked, inked_trim, parens_inked]

theorem parens_replaceGroup (index : Nat) (before after : List Char) :
    parens (replaceGroup index before after) = parens (before ++ after) := by
  have hplaceholder : parens (placeholder index) = [] := by
    refine parens_eq_nil (not_mem_placeholder index) fun hclose => ?_
    rcases of_mem_placeholder hclose with h | h | h
    · exact absurd h (by decide)
    · exact absurd h (by decide)
    · exact absurd h (by decide)
  have hspace (text : List Char) : parens (' ' :: text) = parens text := rfl
  rw [replaceGroup, parens_trim, parens_append, hspace, parens_append, hspace, parens_append,
    hplaceholder, List.append_nil]

/-- Taking out a group takes away one pair. -/
theorem length_pairs_replaceGroup {text before inner after : List Char}
    (h : innermost? text = some (before, inner, after)) (index : Nat) :
    (pairs text).length = (pairs (replaceGroup index before after)).length + 1 := by
  obtain ⟨rfl, hopen, hclose⟩ := eq_of_innermost? h
  rw [length_pairs, length_pairs, pairCount_group (parens_eq_nil hopen hclose),
    pairCount_congr (parens_replaceGroup index before after)]

/-- Without a closing parenthesis there is no pair. -/
theorem pairCount_of_notMem {text : List Char} (h : ')' ∉ text) (unpaired : Nat) :
    pairCount unpaired text = 0 := by
  induction text generalizing unpaired with
  | nil => rfl
  | cons c rest ih =>
      rw [List.mem_cons, not_or] at h
      rw [pairCount, if_neg (Ne.symm h.1)]
      split
      · exact ih h.2 (unpaired + 1)
      · exact ih h.2 unpaired

/-- A text from which no group can be taken has no pairs. -/
theorem length_pairs_of_groupless {text : List Char} (h : Groupless text) :
    (pairs text).length = 0 := by
  rw [groupless_iff] at h
  rw [length_pairs]
  induction text with
  | nil => rfl
  | cons c rest ih =>
      have hrest : ¬ ['(', ')'].Sublist rest := fun hsub => h (hsub.cons c)
      rw [pairCount]
      split
      · next hopen =>
          subst hopen
          refine pairCount_of_notMem (fun hclose => h ?_) 1
          exact (List.singleton_sublist.mpr hclose).cons_cons '('
      · split
        · rw [ih hrest]
          rfl
        · exact ih hrest

/-- In a text from which no group can be taken, every closing parenthesis stands before every
opening one. -/
theorem Groupless.close_lt_open {text : List Char} (h : Groupless text) {closing opening : Nat}
    (hclose : text[closing]? = some ')') (hopen : text[opening]? = some '(') :
    closing < opening := by
  rw [groupless_iff] at h
  by_contra hle
  have hne : opening ≠ closing := by
    rintro rfl
    rw [hclose] at hopen
    cases hopen
  have hlt : opening < closing := Nat.lt_of_le_of_ne (Nat.le_of_not_lt hle) hne
  obtain ⟨hbound, hget⟩ := List.getElem?_eq_some_iff.mp hopen
  have hbehind : ')' ∈ text.drop (opening + 1) := by
    refine List.mem_of_getElem? (i := closing - (opening + 1)) ?_
    rw [List.getElem?_drop, Nat.add_sub_cancel' hlt, hclose]
  have hpair : ['(', ')'].Sublist ('(' :: text.drop (opening + 1)) :=
    (List.singleton_sublist.mpr hbehind).cons_cons '('
  have hdrop : text.drop opening = '(' :: text.drop (opening + 1) := by
    rw [List.drop_eq_getElem_cons hbound, hget]
  rw [← hdrop] at hpair
  exact h (hpair.trans (List.drop_sublist opening text))

variable {parse : List Expr → List Char → Expr}

/-- The loop runs as often as there are pairs, adds as many groups, and ends where taking out
groups ends. -/
theorem Loop.eq_takeOut {count : Nat} {groups groups' : List Expr} {text flat : List Char}
    (h : Loop parse count groups text groups' flat) :
    count = (pairs text).length ∧ groups'.length = groups.length + count ∧ Groupless flat ∧
      takeOut parse groups text = (groups', flat) := by
  induction h with
  | done h =>
      exact ⟨(length_pairs_of_groupless h).symm, rfl, h, takeOut_of_groupless parse _ h⟩
  | body h _ ih =>
      obtain ⟨hcount, hlength, hflat, htakeOut⟩ := ih
      rw [List.length_append, List.length_singleton] at hlength
      refine ⟨?_, by omega, hflat, (takeOut_of_innermost? parse _ h).trans htakeOut⟩
      rw [length_pairs_replaceGroup h, hcount]

/-- The loop ends on every text. -/
theorem loop_takeOut (groups : List Expr) (text : List Char) :
    Loop parse (pairs text).length groups text (takeOut parse groups text).1
      (takeOut parse groups text).2 := by
  fun_induction takeOut parse groups text with
  | case1 groups text h =>
      rw [length_pairs_of_groupless h]
      exact .done h
  | case2 groups text before inner after h ih =>
      rw [length_pairs_replaceGroup h groups.length]
      exact .body h ih

end Groups

namespace Parser

variable {defined : String → Bool} {groups : List Expr}

/-- What of a split is read: the blanks beside an operand belong to its keyword, but for those
before `array`. -/
def Split.operands : Split → Split
  | .or left right => .or (trim left) (trim right)
  | .and left right => .and (trim left) (trim right)
  | .arrayOf inner => .arrayOf inner
  | .not inner => .not (trim inner)

/-- Reading a flat text, given how the texts are read that it calls itself on. -/
def readFlat (defined : String → Bool) (groups : List Expr) (read : List Char → Expr)
    (text : List Char) : Expr :=
  if defined (String.ofList (trim text)) then .named (String.ofList (trim text))
  else
    match Groups.find? groups (trim text) with
    | some group => group
    | none =>
        match split? (trim text) with
        | some split => split.operands.tree read
        | none => .named (String.ofList (trim text))

/-- The texts that the reading of a flat text calls itself on, from left to right. -/
def recursiveCalls (defined : String → Bool) (groups : List Expr) (text : List Char) :
    List (List Char) :=
  if defined (String.ofList (trim text)) || (Groups.find? groups (trim text)).isSome then []
  else ((split? (trim text)).map fun split => split.operands.parts).getD []

-- A keyword with two lines on one side is passed over, even if it is the first one.
example : recursiveCalls (fun _ => false) [] "a or b\n or c".toList =
    ["a or b".toList, "c".toList] := by decide

example : recursiveCalls (fun _ => false) [] "a\nb or c".toList = [] := by decide

/-- Blanks around the operands make no difference to their reading. -/
theorem Split.tree_operands (split : Split) :
    split.operands.tree (parseFlat defined groups) = split.tree (parseFlat defined groups) := by
  have htrim (text : List Char) :
      parseFlat defined groups (trim text) = parseFlat defined groups text := by
    rw [parseFlat, parseFlat, trim_trim]
  cases split with
  | or left right | and left right => rw [operands, tree, tree, htrim, htrim]
  | arrayOf inner => rfl
  | not inner => rw [operands, tree, tree, htrim]

theorem Split.length_lt_of_mem_operands {text part : List Char} {split : Split}
    (h : split? text = some split) (hpart : part ∈ split.operands.parts) :
    part.length < text.length := by
  have hraw : ∃ raw ∈ split.parts, part.length ≤ raw.length := by
    cases split with
    | or left right | and left right =>
        simp only [operands, parts, List.mem_cons, List.not_mem_nil, or_false] at hpart
        rcases hpart with rfl | rfl
        · exact ⟨left, by simp [parts], length_trim_le left⟩
        · exact ⟨right, by simp [parts], length_trim_le right⟩
    | arrayOf inner =>
        rw [operands, parts, List.mem_singleton] at hpart
        exact ⟨inner, by simp [parts], by rw [hpart]⟩
    | not inner =>
        rw [operands, parts, List.mem_singleton] at hpart
        exact ⟨inner, by simp [parts], by rw [hpart]; exact length_trim_le inner⟩
  obtain ⟨raw, hmem, hle⟩ := hraw
  exact hle.trans_lt (length_lt_of_mem_parts h hmem)

/-- Reading a flat text calls itself, and nothing else. -/
theorem parseFlat_eq_readFlat (text : List Char) :
    parseFlat defined groups text = readFlat defined groups (parseFlat defined groups) text := by
  rw [parseFlat, readFlat]
  split
  · next hdefined => exact parseTrimmed_of_defined hdefined groups
  · next hdefined =>
      rw [Bool.not_eq_true] at hdefined
      split
      · next hfind => exact parseTrimmed_of_find? hdefined hfind
      · next hfind =>
          split
          · next hsplit =>
              rw [Split.tree_operands]
              exact parseTrimmed_of_split hdefined hfind hsplit
          · next hsplit => exact parseTrimmed_of_no_split hfind hsplit

theorem Split.tree_congr {read read' : List Char → Expr} {split : Split}
    (h : ∀ part ∈ split.parts, read part = read' part) : split.tree read = split.tree read' := by
  cases split with
  | or left right | and left right =>
      rw [Split.tree, Split.tree, h left (by simp [Split.parts]), h right (by simp [Split.parts])]
  | arrayOf inner | not inner =>
      rw [Split.tree, Split.tree, h inner (by simp [Split.parts])]

/-- What a flat text is read as depends on nothing but the calls that are listed. -/
theorem readFlat_congr {read read' : List Char → Expr} {text : List Char}
    (h : ∀ part ∈ recursiveCalls defined groups text, read part = read' part) :
    readFlat defined groups read text = readFlat defined groups read' text := by
  rw [readFlat, readFlat]
  split
  · rfl
  · next hdefined =>
      split
      · rfl
      · next hfind =>
          split
          · next split hsplit =>
              refine Split.tree_congr fun part hpart => h part ?_
              simpa [recursiveCalls, hdefined, hfind, hsplit] using hpart
          · rfl

/-- Every call is on a shorter text. -/
theorem length_lt_of_mem_recursiveCalls {text part : List Char}
    (h : part ∈ recursiveCalls defined groups text) : part.length < text.length := by
  rw [recursiveCalls] at h
  split at h
  · cases h
  · cases hsplit : split? (trim text) with
    | none =>
        rw [hsplit] at h
        cases h
    | some split =>
        rw [hsplit] at h
        exact (Split.length_lt_of_mem_operands hsplit h).trans_le (length_trim_le text)

/-- Reading ends on every text, however its parentheses stand. The loop that takes out groups
runs once for each matched pair of parentheses, adds one group for each, and leaves a text in
which every closing parenthesis stands before every opening one. A flat text, with whatever
groups, is read by calls on shorter texts alone. -/
theorem parsing_ends (defined : String → Bool) (source : String) :
    (∀ count groups flat,
      Groups.Loop (parseFlat defined) count [] (trim source.toList) groups flat ↔
        count = (Groups.pairs source.toList).length ∧
          Groups.takeOut (parseFlat defined) [] (trim source.toList) = (groups, flat)) ∧
    (∀ (groups : List Expr) (flat : List Char),
      Groups.takeOut (parseFlat defined) [] (trim source.toList) = (groups, flat) →
        groups.length = (Groups.pairs source.toList).length ∧
        (∀ closing opening : Nat, flat[closing]? = some ')' → flat[opening]? = some '(' →
          closing < opening) ∧
        parse defined source = parseFlat defined groups flat) ∧
    ∀ (groups : List Expr) (flat : List Char),
      parseFlat defined groups flat =
        readFlat defined groups (parseFlat defined groups) flat ∧
      (∀ read read', (∀ part ∈ recursiveCalls defined groups flat, read part = read' part) →
        readFlat defined groups read flat = readFlat defined groups read' flat) ∧
      ∀ part ∈ recursiveCalls defined groups flat, part.length < flat.length := by
  have hpairs : (Groups.pairs (trim source.toList)).length =
      (Groups.pairs source.toList).length := by
    rw [Groups.length_pairs, Groups.length_pairs,
      Groups.pairCount_congr (Groups.parens_trim source.toList)]
  have hloop : Groups.Loop (parseFlat defined) (Groups.pairs (trim source.toList)).length []
      (trim source.toList) _ _ := Groups.loop_takeOut [] (trim source.toList)
  refine ⟨fun count groups flat => ⟨fun hcount => ?_, ?_⟩, fun groups flat htakeOut => ?_,
    fun groups flat => ⟨parseFlat_eq_readFlat flat, fun _ _ => readFlat_congr,
      fun _ => length_lt_of_mem_recursiveCalls⟩⟩
  · obtain ⟨hcount, _, _, htakeOut⟩ := hcount.eq_takeOut
    exact ⟨hcount.trans hpairs, htakeOut⟩
  · rintro ⟨rfl, htakeOut⟩
    rwa [htakeOut, hpairs] at hloop
  · obtain ⟨_, hlength, hflat, _⟩ := hloop.eq_takeOut
    rw [htakeOut] at hlength hflat
    rw [hpairs, List.length_nil, Nat.zero_add] at hlength
    refine ⟨hlength, fun _ _ hclose hopen => hflat.close_lt_open hclose hopen, ?_⟩
    rw [parse, parseChars, htakeOut]

end Parser

end Switchboard
