import Switchboard.Proofs.FlatText
import Switchboard.Proofs.Neighbours
import Switchboard.Proofs.Placeholders
import Switchboard.Proofs.Pruning

/-!
What is left of placeholders in the tree of a text. A placeholder is taken for its group where
it is all that is left of an operand, and stays in a name everywhere else. So it is used up if
nothing but `not` stands before it and nothing but `array` behind it up to the nearest `or`,
`and` or end of the text; one placeholder with any other neighbour is enough to leave its marks
in a name of the tree. The tree of a text with groups has no marks in its names if and only if
every placeholder stands like this in each of the flat texts that are read on the way.
-/

namespace Switchboard

open Text

namespace Groups

/-- The flat texts that are read for a text, when so many groups have been taken out before:
those of its groups one after the other, and the text that is left. -/
def flats (count : Nat) (text : List Char) : List (List Char) :=
  match _h : innermost? text with
  | none => [text]
  | some (before, inner, after) =>
      trim inner :: flats (count + 1) (replaceGroup count before after)
termination_by text.count '('
decreasing_by exact count_replaceGroup_lt _ _h

theorem flats_of_groupless {text : List Char} (h : innermost? text = none) (count : Nat) :
    flats count text = [text] := by
  unfold flats
  split
  · rfl
  · next hfound =>
      rw [h] at hfound
      cases hfound

theorem flats_of_innermost? {text before inner after : List Char}
    (h : innermost? text = some (before, inner, after)) (count : Nat) :
    flats count text = trim inner :: flats (count + 1) (replaceGroup count before after) := by
  rw [flats]
  split
  · next hfound =>
      rw [h] at hfound
      cases hfound
  · next hfound =>
      rw [h] at hfound
      obtain ⟨rfl, rfl, rfl⟩ := hfound
      rfl

theorem foreign_of_paren {c : Char} (h : c = '(' ∨ c = ')') : Foreign c := by
  rcases h with rfl | rfl <;> exact foreign_of (by decide) (by decide) (by decide)

/-- If a text with a group is tagged, so is what stands before, in and behind the group. -/
theorem Tagged.of_group {count : Nat} {before inner after : List Char}
    (h : Tagged count (before ++ '(' :: inner ++ ')' :: after)) :
    Tagged count before ∧ Tagged count inner ∧ Tagged count after := by
  obtain ⟨hfront, hafter⟩ := h.of_append_cons (foreign_of_paren (Or.inr rfl))
  obtain ⟨hbefore, hinner⟩ := hfront.of_append_cons (foreign_of_paren (Or.inl rfl))
  exact ⟨hbefore, hinner, hafter⟩

theorem Tagged.replaceGroup {count : Nat} {before after : List Char}
    (hbefore : Tagged count before) (hafter : Tagged count after) :
    Tagged (count + 1) (replaceGroup count before after) := by
  have hspace {text : List Char} (h : Tagged (count + 1) text) : Tagged (count + 1) (' ' :: text) :=
    .char (by decide) (by decide) h
  apply Tagged.trim
  rw [List.append_assoc]
  apply (hbefore.mono (Nat.le_succ count)).append
  exact hspace (.placeholder (Nat.lt_succ_self count) (hspace (hafter.mono (Nat.le_succ count))))

end Groups

namespace Parser

open Groups (Mentions Tagged Unmarked Foreign placeholder)

/-- No name of the tree has a mark. -/
def Clean (tree : Expr) : Prop :=
  ∀ name ∈ tree.names, Unmarked name.toList

theorem Split.clean_tree_iff {split : Split} {read : List Char → Expr} :
    Clean (split.tree read) ↔ ∀ part ∈ split.parts, Clean (read part) := by
  constructor
  · intro h part hpart name hname
    exact h name (Split.mem_names_of_mem_parts hpart hname)
  · intro h name hname
    obtain ⟨part, hpart, hname⟩ := Split.mem_names_tree hname
    exact h part hpart name hname

/-- Every placeholder of the text becomes an operand of its own. -/
def Alone (text : List Char) : Prop :=
  ∀ before index after, text = before ++ (placeholder index ++ after) →
    Opens before ∧ Closes after

/-- The groups that the text speaks of have no marks in their names. -/
def Resolved (groups : List Expr) (text : List Char) : Prop :=
  ∀ index, Mentions text index → ∀ tree ∈ groups[index]?, Clean tree

/-- A word parts a text into what stands before it and behind it, and neither side matters for
the placeholders of the other one. -/
structure Parts (front word back : List Char) : Prop where
  ne_nil : word ≠ []
  foreign : ∀ c ∈ word, Foreign c
  closes : front = [] ∨ Closes (word ++ back) ∧
    (isBoundary front.getLast? = true ∨ isBoundary (word ++ back).head? = true)
  opens : back = [] ∨ Opens (front ++ word) ∧
    (isBoundary (front ++ word).getLast? = true ∨ isBoundary back.head? = true)

namespace Parts

variable {front word back : List Char}

theorem closes_iff (h : Parts front word back) {before rest : List Char} {index : Nat}
    (hfront : front = before ++ (placeholder index ++ rest)) :
    Closes (rest ++ (word ++ back)) ↔ Closes rest := by
  have hne : front ≠ [] := by simp [hfront, placeholder]
  obtain ⟨hcloses, hmeet⟩ := h.closes.resolve_left hne
  apply closes_append_iff hcloses
  rw [hfront, ← List.append_assoc] at hmeet
  exact hmeet.imp_left (isBoundary_getLast?_of_append _)

theorem opens_iff (h : Parts front word back) {rest after : List Char} {index : Nat}
    (hback : back = rest ++ (placeholder index ++ after)) :
    Opens (front ++ (word ++ rest)) ↔ Opens rest := by
  have hne : back ≠ [] := by simp [hback, placeholder]
  obtain ⟨hopens, hmeet⟩ := h.opens.resolve_left hne
  rw [← List.append_assoc]
  apply opens_append_iff hopens
  rw [hback] at hmeet
  exact hmeet.imp_right isBoundary_head?_of_append

theorem alone_iff (h : Parts front word back) :
    Alone (front ++ (word ++ back)) ↔ Alone front ∧ Alone back := by
  constructor
  · intro hall
    constructor
    · intro before index rest hfront
      obtain ⟨hopens, hcloses⟩ := hall before index (rest ++ (word ++ back)) (by simp [hfront])
      exact ⟨hopens, (h.closes_iff hfront).mp hcloses⟩
    · intro rest index after hback
      obtain ⟨hopens, hcloses⟩ := hall (front ++ (word ++ rest)) index after (by simp [hback])
      exact ⟨(h.opens_iff hback).mp hopens, hcloses⟩
  · rintro ⟨hfronts, hbacks⟩ before index after heq
    rcases Groups.cut_word h.ne_nil h.foreign heq with ⟨rest, hfront, rfl⟩ | ⟨rest, hback, rfl⟩
    · obtain ⟨hopens, hcloses⟩ := hfronts before index rest hfront
      exact ⟨hopens, (h.closes_iff hfront).mpr hcloses⟩
    · obtain ⟨hopens, hcloses⟩ := hbacks rest index after hback
      exact ⟨(h.opens_iff hback).mpr hopens, hcloses⟩

theorem tagged (h : Parts front word back) {count : Nat}
    (htag : Tagged count (front ++ (word ++ back))) : Tagged count front ∧ Tagged count back := by
  obtain ⟨c, rest, rfl⟩ := List.exists_cons_of_ne_nil h.ne_nil
  obtain ⟨hc, hrest⟩ := List.forall_mem_cons.mp h.foreign
  obtain ⟨hfront, hback⟩ := htag.of_append_cons hc
  exact ⟨hfront, hback.of_foreign_append hrest⟩

theorem blanks_left {blanks : List Char} (hne : blanks ≠ [])
    (h : ∀ c ∈ blanks, isBlank c = true) (text : List Char) : Parts [] blanks text where
  ne_nil := hne
  foreign c hc := Groups.foreign_of_isBlank (h c hc)
  closes := Or.inl rfl
  opens := by
    right
    refine ⟨Ends.of_blanks fun c hc => h c ?_, Or.inl (isBoundary_of_blanks h).1⟩
    exact List.mem_reverse.mp hc

theorem blanks_right {blanks : List Char} (hne : blanks ≠ [])
    (h : ∀ c ∈ blanks, isBlank c = true) (text : List Char) : Parts text blanks [] where
  ne_nil := hne
  foreign c hc := Groups.foreign_of_isBlank (h c hc)
  closes := by
    rw [List.append_nil]
    exact Or.inr ⟨Ends.of_blanks h, Or.inr (isBoundary_of_blanks h).2⟩
  opens := Or.inl rfl

/-- An `or` or `and` between word boundaries parts a text. -/
theorem of_boundaries (operator : Operator) (hoperator : operator.keyword ∈ [orWord, andWord])
    (hfront : isBoundary front.getLast? = true) (hback : isBoundary back.head? = true) :
    Parts front operator.keyword back where
  ne_nil := keyword_ne_nil operator
  foreign _ hc := Groups.foreign_of_mem_keyword operator hc
  closes := Or.inr ⟨.stop hoperator hback, Or.inl hfront⟩
  opens := by
    right
    refine ⟨?_, Or.inr hback⟩
    unfold Opens
    rw [List.reverse_append]
    apply Ends.stop (List.mem_map_of_mem hoperator : _ ∈ [orWord, andWord].map List.reverse)
    rwa [List.head?_reverse]

theorem array (hfront : isBoundary front.getLast? = true) : Parts front arrayWord [] where
  ne_nil := keyword_ne_nil .array
  foreign _ hc := Groups.foreign_of_mem_keyword .array hc
  closes := Or.inr ⟨.affix rfl .nil, Or.inl hfront⟩
  opens := Or.inl rfl

theorem not (hback : isBoundary back.head? = true) : Parts [] notWord back where
  ne_nil := keyword_ne_nil .not
  foreign _ hc := Groups.foreign_of_mem_keyword .not hc
  closes := Or.inl rfl
  opens := Or.inr ⟨.affix rfl .nil, Or.inr hback⟩

end Parts

/-- A text that splits is parted by its keyword, and its parts are the two sides, up to an
empty one. -/
theorem exists_parts_of_split? {text : List Char} {split : Split} (h : split? text = some split) :
    ∃ front word back, text = front ++ (word ++ back) ∧ Parts front word back ∧
      ∀ P : List Char → Prop, P [] → ((∀ part ∈ split.parts, P part) ↔ P front ∧ P back) := by
  have hbounded := bounded_of_split? h
  rw [eq_text_of_split? h]
  cases split with
  | or left right =>
      refine ⟨left, orWord, right, List.append_assoc _ _ _, ?_, fun P _ => by simp [Split.parts]⟩
      exact .of_boundaries .or (by decide) hbounded.1 hbounded.2
  | and left right =>
      refine ⟨left, andWord, right, List.append_assoc _ _ _, ?_, fun P _ => by simp [Split.parts]⟩
      exact .of_boundaries .and (by decide) hbounded.1 hbounded.2
  | arrayOf inner =>
      refine ⟨inner, arrayWord, [], by rw [List.append_nil, Split.text], .array hbounded, ?_⟩
      intro P hnil
      simp [Split.parts, hnil]
  | not inner =>
      refine ⟨[], notWord, inner, rfl, .not hbounded, ?_⟩
      intro P hnil
      simp [Split.parts, hnil]

/-- What a text has if both its parts have it, it has if it has it without its outer blanks. -/
theorem trim_iff_of_parts {P : List Char → Prop} (hnil : P [])
    (hparts : ∀ {front word back : List Char}, Parts front word back →
      (P (front ++ (word ++ back)) ↔ P front ∧ P back)) (text : List Char) :
    P (trim text) ↔ P text := by
  obtain ⟨before, after, hbefore, hafter, heq⟩ := exists_blanks_trim text
  have hleft (rest : List Char) : P (before ++ rest) ↔ P rest := by
    by_cases hne : before = []
    · rw [hne, List.nil_append]
    · have h := hparts (Parts.blanks_left hne hbefore rest)
      rw [List.nil_append] at h
      exact h.trans (and_iff_right hnil)
  have hright (rest : List Char) : P (rest ++ after) ↔ P rest := by
    by_cases hne : after = []
    · rw [hne, List.append_nil]
    · have h := hparts (Parts.blanks_right hne hafter rest)
      rw [List.append_nil] at h
      exact h.trans (and_iff_left hnil)
  generalize trim text = core at heq ⊢
  subst heq
  exact ((hright _).trans (hleft _)).symm

theorem alone_trim_iff (text : List Char) : Alone (trim text) ↔ Alone text := by
  apply trim_iff_of_parts _ Parts.alone_iff
  intro before index after heq
  exact absurd ⟨before, after, heq⟩ (Groups.not_mentions_nil index)

section Resolved

variable {groups : List Expr}

theorem resolved_cut_iff {front word back : List Char} (hne : word ≠ [])
    (hword : ∀ c ∈ word, Foreign c) :
    Resolved groups (front ++ (word ++ back)) ↔ Resolved groups front ∧ Resolved groups back := by
  simp only [Resolved, Groups.mentions_cut_iff hne hword, or_imp, forall_and]

theorem resolved_trim_iff (text : List Char) :
    Resolved groups (trim text) ↔ Resolved groups text := by
  apply trim_iff_of_parts
  · intro index hmention
    exact absurd hmention (Groups.not_mentions_nil index)
  · intro front word back h
    exact resolved_cut_iff h.ne_nil h.foreign

/-- Groups that come later make no difference to a text that does not speak of them. -/
theorem resolved_append_iff {text : List Char} (htag : Tagged groups.length text)
    (more : List Expr) : Resolved (groups ++ more) text ↔ Resolved groups text := by
  unfold Resolved
  apply forall_congr'
  intro index
  apply imp_congr_right
  intro hmention
  rw [List.getElem?_append_left (htag.lt hmention)]

theorem resolved_placeholder_iff (index : Nat) :
    Resolved groups (placeholder index) ↔ ∀ tree ∈ groups[index]?, Clean tree := by
  simp only [Resolved, Groups.mentions_placeholder_iff, forall_eq']

end Resolved

section Reading

variable {defined : String → Bool} {groups : List Expr} {text : List Char}

theorem alone_of_unmarked (h : Unmarked text) : Alone text := by
  intro before index after heq
  exact absurd ⟨before, after, heq⟩ (h.not_mentions index)

theorem resolved_of_unmarked (h : Unmarked text) : Resolved groups text :=
  fun index hmention => absurd hmention (h.not_mentions index)

theorem alone_placeholder (index : Nat) : Alone (placeholder index) := by
  intro before other after heq
  rw [← List.append_nil (placeholder index)] at heq
  rcases Groups.cut_first heq with ⟨rfl, _, rfl⟩ | ⟨middle, _, hnil⟩
  · exact ⟨.nil, .nil⟩
  · simp [placeholder] at hnil

theorem isBoundary_head?_placeholder (index : Nat) (after : List Char) :
    isBoundary (placeholder index ++ after).head? = true := by
  change isBoundary (some Groups.openMark) = true
  decide +kernel

theorem isBoundary_getLast?_placeholder (before : List Char) (index : Nat) :
    isBoundary (before ++ placeholder index).getLast? = true := by
  rw [placeholder, ← List.append_assoc, List.getLast?_concat]
  decide +kernel

/-- A text of one line that is neither split nor a group has placeholders that are not alone,
if it has any. -/
theorem alone_iff_of_split?_eq_none (hline : '\n' ∉ text) (htrim : Trimmed text)
    (htag : Tagged groups.length text) (hfind : Groups.find? groups text = none)
    (hsplit : split? text = none) : Alone text ↔ Unmarked text := by
  constructor
  · intro halone
    by_contra hmarked
    obtain ⟨index, before, after, heq⟩ := htag.exists_mentions hmarked
    obtain ⟨hopens, hcloses⟩ := halone before index after heq
    have hafter : after = [] := by
      by_contra hne
      have htext : text = (before ++ placeholder index) ++ after := by rw [heq, List.append_assoc]
      rw [htext] at hsplit htrim hline
      have hlast := isBoundary_getLast?_placeholder before index
      exact split?_ne_none_of_closes hline hlast hcloses hne htrim.2 hsplit
    have hbefore : before = [] := by
      by_contra hne
      rw [heq] at hsplit htrim hline
      have hhead := isBoundary_head?_placeholder index after
      exact split?_ne_none_of_opens hline hhead hopens hne htrim.1 hsplit
    have hindex := htag.lt ⟨before, after, heq⟩
    rw [heq, hbefore, hafter, List.nil_append, List.append_nil, Groups.find?_placeholder,
      List.getElem?_eq_getElem hindex] at hfind
    cases hfind
  · exact alone_of_unmarked

/-- The tree of a text of one line has no marks if and only if its placeholders stand alone and
speak of groups without marks. -/
theorem clean_parseTrimmed_iff (hnames : ∀ name, defined name = true → Unmarked name.toList)
    (hline : '\n' ∉ text) (htrim : Trimmed text) (htag : Tagged groups.length text) :
    Clean (parseTrimmed defined groups text) ↔ Alone text ∧ Resolved groups text := by
  revert hline htrim htag
  apply parseTrimmed_induction
    (motive := fun text tree => '\n' ∉ text → Trimmed text → Tagged groups.length text →
      (Clean tree ↔ Alone text ∧ Resolved groups text))
  · intro text hname hline htrim htag
    have hclean : Clean (.named (String.ofList text)) ↔ Unmarked text := by
      simp [Clean, Expr.names]
    rw [hclean]
    constructor
    · intro h
      exact ⟨alone_of_unmarked h, resolved_of_unmarked h⟩
    · rintro ⟨halone, _⟩
      rcases hname with hdefined | ⟨_, hfind, hsplit⟩
      · simpa using hnames _ hdefined
      · exact (alone_iff_of_split?_eq_none hline htrim htag hfind hsplit).mp halone
  · intro text tree _ hfind _ _ htag
    obtain ⟨index, rfl, htree⟩ := htag.exists_of_find? hfind
    rw [resolved_placeholder_iff, htree, and_iff_right (alone_placeholder index)]
    simp
  · intro text split _ _ hsplit ih hline _ htag
    have hlines : ∀ part ∈ split.parts, '\n' ∉ part :=
      fun part hmem hfeed => hline ((isInfix_of_mem_parts hsplit hmem).subset hfeed)
    obtain ⟨front, word, back, rfl, hparts, hpart⟩ := exists_parts_of_split? hsplit
    have htags : Tagged groups.length front ∧ Tagged groups.length back := hparts.tagged htag
    have htagged : ∀ part ∈ split.parts, Tagged groups.length part :=
      (hpart (Tagged groups.length) .nil).mpr htags
    have hread : ∀ part ∈ split.parts,
        (Clean (parseFlat defined groups part) ↔ Alone part ∧ Resolved groups part) := by
      intro part hmem
      rw [← alone_trim_iff part, ← resolved_trim_iff part]
      exact ih part hmem (lineFeed_notMem_trim (hlines part hmem)) (trimmed_trim part)
        (htagged part hmem).trim
    rw [Split.clean_tree_iff, forall₂_congr hread, hparts.alone_iff,
      resolved_cut_iff hparts.ne_nil hparts.foreign]
    rw [hpart (fun part => Alone part ∧ Resolved groups part)]
    · exact and_and_and_comm
    · exact ⟨alone_of_unmarked (by simp [Unmarked]), resolved_of_unmarked (by simp [Unmarked])⟩

/-- After a group has been taken out, the text speaks of groups without marks if it did before
and the new group is read from a text without stray placeholders. -/
theorem resolved_replaceGroup_iff (hnames : ∀ name, defined name = true → Unmarked name.toList)
    {before inner after : List Char} (hline : '\n' ∉ inner)
    (htag : Tagged groups.length (before ++ '(' :: inner ++ ')' :: after)) :
    Resolved (groups ++ [parseFlat defined groups (trim inner)])
        (Groups.replaceGroup groups.length before after) ↔
      Alone (trim inner) ∧ Resolved groups (before ++ '(' :: inner ++ ')' :: after) := by
  obtain ⟨hbefore, hinner, hafter⟩ := htag.of_group
  have hread : Clean (parseFlat defined groups (trim inner)) ↔
      Alone (trim inner) ∧ Resolved groups inner := by
    rw [← resolved_trim_iff inner, parseFlat, Text.trim_trim]
    exact clean_parseTrimmed_iff hnames (lineFeed_notMem_trim hline) (trimmed_trim inner)
      hinner.trim
  have hcut (groups : List Expr) (c : Char) (hc : Foreign c) (front back : List Char) :
      Resolved groups (front ++ c :: back) ↔ Resolved groups front ∧ Resolved groups back :=
    @resolved_cut_iff groups front [c] back (by simp) (by simpa using hc)
  have hspace : Foreign ' ' := Groups.foreign_of_isBlank (by decide)
  have hnew : Resolved (groups ++ [parseFlat defined groups (trim inner)])
      (placeholder groups.length) ↔ Alone (trim inner) ∧ Resolved groups inner := by
    rw [resolved_placeholder_iff, ← hread]
    simp
  rw [Groups.replaceGroup, resolved_trim_iff, hcut _ ' ' hspace, hcut _ ' ' hspace, hnew,
    resolved_append_iff hbefore, resolved_append_iff hafter,
    hcut _ ')' (Groups.foreign_of_paren (Or.inr rfl)),
    hcut _ '(' (Groups.foreign_of_paren (Or.inl rfl))]
  tauto

/-- The same for a text with groups: the flat texts are read one after the other, and the group
read from each is spoken of by the texts after it. -/
theorem clean_takeOut_iff (hnames : ∀ name, defined name = true → Unmarked name.toList)
    (hline : '\n' ∉ text) (htrim : Trimmed text) (htag : Tagged groups.length text) :
    Clean (parseFlat defined (Groups.takeOut (parseFlat defined) groups text).1
        (Groups.takeOut (parseFlat defined) groups text).2) ↔
      (∀ flat ∈ Groups.flats groups.length text, Alone flat) ∧ Resolved groups text := by
  fun_induction Groups.takeOut (parseFlat defined) groups text with
  | case1 groups text hnone =>
      rw [Groups.flats_of_groupless hnone, parseFlat, Text.trim_of_trimmed htrim,
        clean_parseTrimmed_iff hnames hline htrim htag]
      simp
  | case2 groups text before inner after hfound ih =>
      -- the inner text is the first of the flat texts, and the new group is clean if it is alone
      obtain ⟨rfl, _, _⟩ := Groups.eq_of_innermost? hfound
      obtain ⟨hbefore, _, hafter⟩ := htag.of_group
      have hlength : (groups ++ [parseFlat defined groups (trim inner)]).length =
          groups.length + 1 := by simp
      rw [hlength] at ih
      have hinner : '\n' ∉ inner := fun hmem => hline (by simp [hmem])
      rw [Groups.flats_of_innermost? hfound, List.forall_mem_cons,
        ih (Groups.lineFeed_notMem_replaceGroup _ hline) (trimmed_trim _)
          (hbefore.replaceGroup hafter),
        resolved_replaceGroup_iff hnames hinner htag]
      tauto

/-- The tree of a text of one line without marks has none in its names if and only if every
placeholder is alone in the flat texts that are read on the way. -/
theorem clean_parse_iff (hnames : ∀ name, defined name = true → Unmarked name.toList)
    {source : String} (hline : '\n' ∉ source.toList) (hsource : Unmarked source.toList) :
    Clean (parse defined source) ↔ ∀ flat ∈ Groups.flats 0 (trim source.toList), Alone flat := by
  have htag : Tagged 0 (trim source.toList) := (Tagged.of_unmarked hsource).trim
  have hresolved : Resolved [] (trim source.toList) := by
    intro index hmention
    exact absurd (htag.lt hmention) (Nat.not_lt_zero index)
  have hread := @clean_takeOut_iff defined [] _ hnames (lineFeed_notMem_trim hline)
    (trimmed_trim source.toList) htag
  exact hread.trans (and_iff_left hresolved)

end Reading

end Parser

end Switchboard
