import Switchboard.Proofs.Keyword
import Switchboard.Proofs.NormalForm

/-!
What reading a text makes of its names. Every name of a tree is a stretch of the text
it was read from, and none holds a parenthesized group, since groups are taken out
first. A defined name that holds no group is read as itself. An operand word, a plain
word that is no keyword, is read as itself whether it is defined or not, so defining
one changes no reading.
-/

namespace Switchboard

namespace Groups

open Text

/-- Taking out groups leaves this text as it is. -/
def Groupless (text : List Char) : Prop :=
  innermost? text = none

theorem cutAtClose?_append {inner : List Char} (hopen : '(' ∉ inner) (hclose : ')' ∉ inner)
    (after : List Char) : cutAtClose? (inner ++ ')' :: after) = some (inner, after) := by
  induction inner with
  | nil => simp [cutAtClose?]
  | cons c rest ih =>
      rw [List.mem_cons, not_or] at hopen hclose
      simp [cutAtClose?, Ne.symm hopen.1, Ne.symm hclose.1, ih hopen.2 hclose.2]

theorem not_groupless {before inner after : List Char} (hopen : '(' ∉ inner)
    (hclose : ')' ∉ inner) : ¬ Groupless (before ++ '(' :: inner ++ ')' :: after) := by
  rw [Groupless]
  induction before with
  | nil => simp [innermost?, cutAtClose?_append hopen hclose]
  | cons c rest ih =>
      rw [List.cons_append, List.cons_append, innermost?]
      split
      · simp
      · simpa using ih

/-- A stretch of a text without groups has no groups. -/
theorem Groupless.of_isInfix {part text : List Char} (h : Groupless text) (hpart : part <:+: text) :
    Groupless part := by
  by_contra hsome
  obtain ⟨⟨before, inner, after⟩, hfound⟩ := Option.ne_none_iff_exists'.mp hsome
  obtain ⟨rfl, hopen, hclose⟩ := eq_of_innermost? hfound
  obtain ⟨left, right, rfl⟩ := hpart
  have hwhole : Groupless ((left ++ before) ++ '(' :: inner ++ ')' :: (after ++ right)) := by
    simpa using h
  exact not_groupless hopen hclose hwhole

theorem groupless_of_notMem {text : List Char} (h : '(' ∉ text) : Groupless text := by
  by_contra hsome
  obtain ⟨⟨before, inner, after⟩, hfound⟩ := Option.ne_none_iff_exists'.mp hsome
  obtain ⟨rfl, _, _⟩ := eq_of_innermost? hfound
  exact h (by simp)

/-- Only a text that starts with the opening mark stands for a group. -/
theorem find?_eq_none {text : List Char} (h : openMark ∉ text) (groups : List Expr) :
    find? groups text = none := by
  cases text with
  | nil => rfl
  | cons c rest =>
      rw [List.mem_cons, not_or] at h
      simp [find?, Ne.symm h.1]

theorem mem_of_find? {groups : List Expr} {text : List Char} {group : Expr}
    (h : find? groups text = some group) : group ∈ groups := by
  cases text with
  | nil => cases h
  | cons c rest =>
      rw [find?] at h
      split at h
      · rw [Option.bind_eq_some_iff] at h
        obtain ⟨index, _, hindex⟩ := h
        exact List.mem_of_getElem? hindex
      · cases h

theorem takeOut_of_groupless (parse : List Expr → List Char → Expr) (groups : List Expr)
    {text : List Char} (h : Groupless text) : takeOut parse groups text = (groups, text) := by
  rw [takeOut]
  split
  · rfl
  · next hfound =>
      rw [Groupless] at h
      rw [h] at hfound
      cases hfound

theorem takeOut_of_innermost? (parse : List Expr → List Char → Expr) (groups : List Expr)
    {text before inner after : List Char} (h : innermost? text = some (before, inner, after)) :
    takeOut parse groups text =
      takeOut parse (groups ++ [parse groups (trim inner)])
        (replaceGroup groups.length before after) := by
  rw [takeOut]
  split
  · next hfound =>
      rw [h] at hfound
      cases hfound
  · next hfound =>
      rw [h] at hfound
      obtain ⟨rfl, rfl, rfl⟩ := hfound
      rfl

/-- What holds of the groups before and is kept by reading a group holds of all groups
in the end; and the text that is left has no groups. The texts on the way are `fair`, as
long as taking out a group keeps a text fair. -/
theorem takeOut_induction {parse : List Expr → List Char → Expr} (good : Expr → Prop)
    (fair : List Char → Prop)
    (hstep : ∀ groups before inner after, (∀ group ∈ groups, good group) →
      '(' ∉ inner → ')' ∉ inner → fair (before ++ '(' :: inner ++ ')' :: after) →
      good (parse groups (trim inner)) ∧ fair (replaceGroup groups.length before after))
    (groups : List Expr) (text : List Char) (hgroups : ∀ group ∈ groups, good group)
    (htext : fair text) :
    (∀ group ∈ (takeOut parse groups text).1, good group) ∧
      Groupless (takeOut parse groups text).2 ∧ fair (takeOut parse groups text).2 := by
  fun_induction takeOut parse groups text with
  | case1 groups text h => exact ⟨hgroups, h, htext⟩
  | case2 groups text before inner after h ih =>
      obtain ⟨rfl, hopen, hclose⟩ := eq_of_innermost? h
      obtain ⟨hgood, hfair⟩ := hstep groups before inner after hgroups hopen hclose htext
      refine ih ?_ hfair
      intro group hgroup
      rw [List.mem_append, List.mem_singleton] at hgroup
      rcases hgroup with hold | rfl
      · exact hgroups group hold
      · exact hgood

end Groups

namespace Parser

open Text

theorem trim_isInfix (text : List Char) : trim text <:+: text :=
  (trimEnd_isPrefix _).isInfix.trans (trimStart_isSuffix text).isInfix

theorem lineFeed_notMem_trim {text : List Char} (h : '\n' ∉ text) : '\n' ∉ trim text :=
  fun hmem => h ((trim_sublist text).subset hmem)

theorem isInfix_of_mem_parts {text part : List Char} {split : Split}
    (h : split? text = some split) (hpart : part ∈ split.parts) : part <:+: text := by
  rw [eq_text_of_split? h]
  cases split with
  | or left right | and left right =>
      simp only [Split.parts, List.mem_cons, List.not_mem_nil, or_false] at hpart
      rcases hpart with rfl | rfl
      · exact ⟨[], _, by rw [List.nil_append, Split.text, List.append_assoc]⟩
      · exact ⟨_, [], by rw [List.append_nil, Split.text]⟩
  | arrayOf inner =>
      rw [Split.parts, List.mem_singleton] at hpart
      exact ⟨[], arrayWord, by rw [hpart, List.nil_append, Split.text]⟩
  | not inner =>
      rw [Split.parts, List.mem_singleton] at hpart
      exact ⟨notWord, [], by rw [hpart, List.append_nil, Split.text]⟩

/-- The tree of a text that splits, from the trees of its parts. -/
def Split.tree (read : List Char → Expr) : Split → Expr
  | .or left right => .or (read left) (read right)
  | .and left right => .and (read left) (read right)
  | .arrayOf inner => .arrayOf (read inner)
  | .not inner => .not (read inner)

theorem parseTrimmed_of_defined {defined : String → Bool} {text : List Char}
    (h : defined (String.ofList text) = true) (groups : List Expr) :
    parseTrimmed defined groups text = .named (String.ofList text) := by
  rw [parseTrimmed, if_pos h]

theorem parseTrimmed_of_find? {defined : String → Bool} {groups : List Expr} {text : List Char}
    {group : Expr} (h : defined (String.ofList text) = false)
    (hfind : Groups.find? groups text = some group) :
    parseTrimmed defined groups text = group := by
  rw [parseTrimmed, if_neg (by simp [h]), hfind]

theorem parseTrimmed_of_split {defined : String → Bool} {groups : List Expr} {text : List Char}
    {split : Split} (h : defined (String.ofList text) = false)
    (hfind : Groups.find? groups text = none) (hsplit : split? text = some split) :
    parseTrimmed defined groups text = split.tree (parseFlat defined groups) := by
  rw [parseTrimmed, if_neg (by simp [h]), hfind]
  simp only
  split
  · next heq => rw [hsplit] at heq; cases heq
  all_goals next heq => rw [hsplit] at heq; cases heq; rfl

theorem parseTrimmed_of_no_split {defined : String → Bool} {groups : List Expr}
    {text : List Char} (hfind : Groups.find? groups text = none) (hsplit : split? text = none) :
    parseTrimmed defined groups text = .named (String.ofList text) := by
  rw [parseTrimmed]
  split
  · rfl
  · rw [hfind]
    simp only
    split
    · rfl
    all_goals next heq => rw [hsplit] at heq; cases heq

/-- Reading a text by its parts: what is true of the text where it is a name or a group,
and goes over from the parts of a split, is true of every text. -/
theorem parseTrimmed_induction {defined : String → Bool} {groups : List Expr}
    (motive : List Char → Expr → Prop)
    (name : ∀ text, (defined (String.ofList text) = true ∨
      (defined (String.ofList text) = false ∧ Groups.find? groups text = none ∧
        split? text = none)) → motive text (.named (String.ofList text)))
    (group : ∀ text tree, defined (String.ofList text) = false →
      Groups.find? groups text = some tree → motive text tree)
    (split : ∀ text split, defined (String.ofList text) = false →
      Groups.find? groups text = none → split? text = some split →
      (∀ part ∈ split.parts, motive (trim part) (parseTrimmed defined groups (trim part))) →
      motive text (split.tree (parseFlat defined groups)))
    (text : List Char) : motive text (parseTrimmed defined groups text) := by
  by_cases hdefined : defined (String.ofList text) = true
  · rw [parseTrimmed_of_defined hdefined]
    exact name text (Or.inl hdefined)
  · rw [Bool.not_eq_true] at hdefined
    cases hfind : Groups.find? groups text with
    | some tree =>
        rw [parseTrimmed_of_find? hdefined hfind]
        exact group text tree hdefined hfind
    | none =>
        cases hsplit : split? text with
        | none =>
            rw [parseTrimmed_of_no_split hfind hsplit]
            exact name text (Or.inr ⟨hdefined, hfind, hsplit⟩)
        | some found =>
            rw [parseTrimmed_of_split hdefined hfind hsplit]
            apply split text found hdefined hfind hsplit
            intro part hpart
            exact parseTrimmed_induction motive name group split (trim part)
termination_by text.length
decreasing_by
  exact Nat.lt_of_le_of_lt (length_trim_le _) (length_lt_of_mem_parts hsplit hpart)

/-- A name in the tree of a split comes from one of the parts. -/
theorem Split.mem_names_tree {read : List Char → Expr} {split : Split} {name : String}
    (h : name ∈ (split.tree read).names) : ∃ part ∈ split.parts, name ∈ (read part).names := by
  cases split with
  | or left right | and left right =>
      simp only [Split.tree, Expr.names, List.mem_append] at h
      rcases h with h | h
      · exact ⟨left, by simp [Split.parts], h⟩
      · exact ⟨right, by simp [Split.parts], h⟩
  | arrayOf inner | not inner => exact ⟨inner, by simp [Split.parts], h⟩

/-- A name in a tree is a stretch of the text it was read from, or comes from a group. -/
theorem isInfix_of_mem_names {defined : String → Bool} {groups : List Expr} {text : List Char}
    {name : String} (h : name ∈ (parseTrimmed defined groups text).names) :
    name.toList <:+: text ∨ ∃ group ∈ groups, name ∈ group.names := by
  revert h
  refine parseTrimmed_induction (motive := fun text tree => name ∈ tree.names →
    name.toList <:+: text ∨ ∃ group ∈ groups, name ∈ group.names) ?_ ?_ ?_ text
  · intro text _ hname
    rw [Expr.names, List.mem_singleton] at hname
    rw [hname, String.toList_ofList]
    exact Or.inl List.infix_rfl
  · intro text tree _ hfind hname
    exact Or.inr ⟨tree, Groups.mem_of_find? hfind, hname⟩
  · intro text split _ _ hsplit ih hname
    obtain ⟨part, hpart, hname⟩ := Split.mem_names_tree hname
    refine (ih part hpart hname).imp (fun hstretch => ?_) id
    exact (hstretch.trans (trim_isInfix part)).trans (isInfix_of_mem_parts hsplit hpart)

/-- No name in a tree holds a parenthesized group. -/
theorem groupless_of_mem_names_parse {defined : String → Bool} {source name : String}
    (h : name ∈ (parse defined source).names) : Groups.Groupless name.toList := by
  let good (tree : Expr) : Prop := ∀ name ∈ tree.names, Groups.Groupless name.toList
  have hflat (groups : List Expr) (text : List Char) (hgroups : ∀ group ∈ groups, good group)
      (htext : Groups.Groupless text) : good (parseFlat defined groups text) := by
    intro name hname
    rcases isInfix_of_mem_names hname with hstretch | ⟨group, hgroup, hname⟩
    · exact htext.of_isInfix (hstretch.trans (trim_isInfix text))
    · exact hgroups group hgroup name hname
  have hstep (groups : List Expr) (before inner after : List Char)
      (hgroups : ∀ group ∈ groups, good group) (hopen : '(' ∉ inner) (_ : ')' ∉ inner)
      (_ : True) : good (parseFlat defined groups (trim inner)) ∧ True := by
    refine ⟨hflat groups (trim inner) hgroups ?_, trivial⟩
    exact Groups.groupless_of_notMem fun hmem => hopen ((trim_sublist inner).subset hmem)
  obtain ⟨hgroups, hrest, _⟩ := Groups.takeOut_induction good (fun _ => True) hstep []
    (trim source.toList) (by simp) trivial
  exact hflat _ _ hgroups hrest name h

/-- A text without groups is read as it stands. -/
theorem parse_of_groupless {defined : String → Bool} {source : String}
    (h : Groups.Groupless source.toList) :
    parse defined source = parseFlat defined [] source.toList := by
  have htrim : Groups.Groupless (trim source.toList) := h.of_isInfix (trim_isInfix _)
  rw [parse, parseChars, Groups.takeOut_of_groupless _ _ htrim]
  simp only [parseFlat, trim_trim]

/-- A defined name without groups is read as itself. -/
theorem parse_of_defined {defined : String → Bool} {name : String} (h : defined name = true)
    (hgroupless : Groups.Groupless name.toList) (htrimmed : Trimmed name.toList) :
    parse defined name = .named name := by
  rw [parse_of_groupless hgroupless, parseFlat, trim_of_trimmed htrimmed,
    parseTrimmed_of_defined (by rwa [String.ofList_toList]), String.ofList_toList]

/-- A name that holds a group is never read as itself, defined or not. -/
theorem parse_ne_named {defined : String → Bool} {name : String}
    (h : ¬ Groups.Groupless name.toList) : parse defined name ≠ .named name := by
  intro heq
  apply h
  have hname : name ∈ (parse defined name).names := by simp [heq, Expr.names]
  exact groupless_of_mem_names_parse hname

theorem trimmed_of_isPlainWord {name : String} (h : isPlainWord name = true) :
    Trimmed name.toList := by
  rw [isPlainWord, Bool.and_eq_true] at h
  exact trimmed_of_all_isWord fun c hc => isWord_of_isPlain (List.all_eq_true.mp h.2 c hc)

theorem notMem_of_isPlainWord {name : String} (h : isPlainWord name = true) {c : Char}
    (hc : isPlain c = false) : c ∉ name.toList := by
  rw [isPlainWord, Bool.and_eq_true] at h
  intro hmem
  rw [List.all_eq_true.mp h.2 c hmem] at hc
  cases hc

theorem parseTrimmed_of_isOperandWord {name : String} (h : IsOperandWord name)
    (defined : String → Bool) (groups : List Expr) :
    parseTrimmed defined groups name.toList = .named name := by
  rw [parseTrimmed_of_no_split (Groups.find?_eq_none _ groups) (split?_of_isOperandWord h),
    String.ofList_toList]
  exact notMem_of_isPlainWord h.1 (by decide)

/-- An operand word is read as itself, defined or not. -/
theorem parse_of_isOperandWord {name : String} (h : IsOperandWord name)
    (defined : String → Bool) : parse defined name = .named name := by
  have hopen : '(' ∉ name.toList := notMem_of_isPlainWord h.1 (by decide)
  rw [parse_of_groupless (Groups.groupless_of_notMem hopen), parseFlat,
    trim_of_trimmed (trimmed_of_isPlainWord h.1), parseTrimmed_of_isOperandWord h]

/-- Which operand words are defined has no influence on a flat text. -/
theorem parseTrimmed_congr {defined defined' : String → Bool}
    (h : ∀ name, defined name = defined' name ∨ IsOperandWord name) (groups : List Expr)
    (text : List Char) :
    parseTrimmed defined groups text = parseTrimmed defined' groups text := by
  have hoperand (text : List Char) (hword : IsOperandWord (String.ofList text)) :
      parseTrimmed defined' groups text = .named (String.ofList text) := by
    have := parseTrimmed_of_isOperandWord hword defined' groups
    rwa [String.toList_ofList] at this
  refine parseTrimmed_induction
    (motive := fun text tree => tree = parseTrimmed defined' groups text) ?_ ?_ ?_ text
  · rintro text (hdefined | ⟨_, hfind, hsplit⟩)
    · rcases h (String.ofList text) with heq | hword
      · rw [parseTrimmed_of_defined (by rw [← heq, hdefined])]
      · rw [hoperand text hword]
    · rw [parseTrimmed_of_no_split hfind hsplit]
  · intro text tree hdefined hfind
    rcases h (String.ofList text) with heq | hword
    · rw [parseTrimmed_of_find? (by rw [← heq, hdefined]) hfind]
    · have hmark : Groups.openMark ∉ text := by
        have := notMem_of_isPlainWord hword.1 (c := Groups.openMark) (by decide)
        rwa [String.toList_ofList] at this
      rw [Groups.find?_eq_none hmark] at hfind
      cases hfind
  · intro text split hdefined hfind hsplit ih
    rcases h (String.ofList text) with heq | hword
    · rw [parseTrimmed_of_split (by rw [← heq, hdefined]) hfind hsplit]
      cases split <;> simp_all [Split.tree, Split.parts, parseFlat]
    · have := split?_of_isOperandWord hword
      rw [String.toList_ofList, hsplit] at this
      cases this

/-- Which operand words are defined has no influence on any reading. -/
theorem parse_congr {defined defined' : String → Bool}
    (h : ∀ name, defined name = defined' name ∨ IsOperandWord name) (source : String) :
    parse defined source = parse defined' source := by
  have hflat : parseFlat defined = parseFlat defined' := by
    funext groups text
    exact parseTrimmed_congr h groups (trim text)
  rw [parse, parse, parseChars, parseChars, hflat]

end Parser

end Switchboard
