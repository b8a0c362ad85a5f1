import Switchboard.Proofs.Reading

/-!
What becomes of a tree when more names are defined. A stretch of the text that has become
a name is read as that name, and the part of the tree below it is cut away; everything else
is read as before. So if all names of the tree are defined, the names of the new tree are
names of the old one or names that have been added, and every added name divides: the text of
an indivisible name was that name before, or had an empty operand, and nothing is ever called
by the empty name.
-/

namespace Switchboard

open Text

namespace Groups

/-- Whether a text stands for a group, and for which, depends on the number of groups only. -/
theorem exists_index_find? (text : List Char) :
    ∃ index : Option Nat, ∀ groups, find? groups text = index.bind fun i => groups[i]? := by
  cases text with
  | nil => exact ⟨none, fun _ => rfl⟩
  | cons c rest =>
      by_cases hmarks : (c = openMark && rest.getLast? = some closeMark) = true
      · refine ⟨readIndex? rest.dropLast, fun groups => ?_⟩
        rw [find?, if_pos hmarks]
      · refine ⟨none, fun groups => ?_⟩
        rw [find?, if_neg hmarks]
        rfl

/-- Lists of groups that match one by one are looked up alike. -/
theorem find?_forall₂ {rel : Expr → Expr → Prop} {groups groups' : List Expr}
    (h : List.Forall₂ rel groups groups') (text : List Char) :
    (find? groups text = none ∧ find? groups' text = none) ∨
      ∃ tree tree', find? groups text = some tree ∧ find? groups' text = some tree' ∧
        rel tree tree' := by
  obtain ⟨index, hindex⟩ := exists_index_find? text
  rw [hindex, hindex]
  cases index with
  | none => exact Or.inl ⟨rfl, rfl⟩
  | some i =>
      have hlength := h.length_eq
      by_cases hi : i < groups.length
      · have hi' : i < groups'.length := hlength ▸ hi
        refine Or.inr ⟨groups[i], groups'[i], ?_, ?_, ?_⟩
        · simp [hi]
        · simp [hi']
        · exact h.get hi hi'
      · have hi' : ¬ i < groups'.length := hlength ▸ hi
        exact Or.inl ⟨by simpa using hi, by simpa using hi'⟩

/-- Two readers whose groups match one by one take the same groups out of a text. -/
theorem takeOut_forall₂ {rel : Expr → Expr → Prop} {parse parse' : List Expr → List Char → Expr}
    (hparse : ∀ groups groups' text, List.Forall₂ rel groups groups' →
      rel (parse groups text) (parse' groups' text))
    {groups groups' : List Expr} (h : List.Forall₂ rel groups groups') (text : List Char) :
    List.Forall₂ rel (takeOut parse groups text).1 (takeOut parse' groups' text).1 ∧
      (takeOut parse groups text).2 = (takeOut parse' groups' text).2 := by
  fun_induction takeOut parse groups text generalizing groups' with
  | case1 groups text hnone =>
      rw [takeOut_of_groupless parse' groups' hnone]
      exact ⟨h, rfl⟩
  | case2 groups text before inner after hfound ih =>
      rw [takeOut_of_innermost? parse' groups' hfound, ← h.length_eq]
      exact ih (List.rel_append h (.cons (hparse groups groups' _ h) .nil))

end Groups

namespace Parser

variable {defined defined' : String → Bool}

/-- A name whose text is read as itself before the name is defined, too: it is spelled normally,
holds no group and stands for none, and no keyword splits it. A keyword without an operand on
one side may stand in it, since no text with an empty operand is ever the text of an alias. -/
structure Indivisible (name : String) : Prop where
  normal : Spelling.normalize name = name
  groupless : Groups.Groupless name.toList
  ungrouped : ∀ groups, Groups.find? groups name.toList = none
  whole : ∀ split, split? name.toList = some split → [] ∈ split.parts

theorem Indivisible.trimmed {name : String} (h : Indivisible name) : Trimmed name.toList := by
  rw [← h.normal, Spelling.toList_normalize]
  exact Spelling.trimmed_normalChars name.toList

theorem indivisible_of_isPlainWord {name : String} (h : isPlainWord name = true) :
    Indivisible name where
  normal := Spelling.normalize_of_isPlainWord h
  groupless := Groups.groupless_of_notMem (notMem_of_isPlainWord h (by decide))
  ungrouped := Groups.find?_eq_none (notMem_of_isPlainWord h (by decide))
  whole split hsplit := by
    have hwords : ∀ word ∈ keywords, ∃ split, split? word = some split ∧ [] ∈ split.parts := by
      decide
    by_cases hkeyword : name.toList ∈ keywords
    · obtain ⟨other, hother, hpart⟩ := hwords name.toList hkeyword
      rw [hsplit, Option.some.injEq] at hother
      rwa [hother]
    · rw [split?_of_isOperandWord ⟨h, hkeyword⟩] at hsplit
      cases hsplit

/-- If all names of the first tree are defined in the end, the names of the second tree are
among them or have been defined in between, and divide in that case. -/
def Narrows (defined defined' : String → Bool) (tree tree' : Expr) : Prop :=
  (∀ name ∈ tree.names, defined' name = true) → ∀ name ∈ tree'.names,
    name ∈ tree.names ∨ defined name = false ∧ defined' name = true ∧ ¬ Indivisible name

theorem Narrows.refl (tree : Expr) : Narrows defined defined' tree tree :=
  fun _ _ hname => Or.inl hname

theorem narrows_of_mem {tree : Expr} {name : String} (hname : name ∈ tree.names)
    (hdefined : defined' name = false) (tree' : Expr) : Narrows defined defined' tree tree' := by
  intro hall
  rw [hall name hname] at hdefined
  cases hdefined

theorem narrows_named {name : String} (hold : defined name = false)
    (hnew : defined' name = true) (hdivides : ¬ Indivisible name) (tree : Expr) :
    Narrows defined defined' tree (.named name) := by
  intro _ other hother
  rw [List.mem_singleton.mp hother]
  exact Or.inr ⟨hold, hnew, hdivides⟩

/-- The names of a part are names of the tree of the split. -/
theorem Split.mem_names_of_mem_parts {read : List Char → Expr} {split : Split} {part : List Char}
    (hpart : part ∈ split.parts) {name : String} (h : name ∈ (read part).names) :
    name ∈ (split.tree read).names := by
  cases split with
  | or left right | and left right =>
      simp only [Split.parts, List.mem_cons, List.not_mem_nil, or_false] at hpart
      rcases hpart with rfl | rfl
      · exact List.mem_append_left _ h
      · exact List.mem_append_right _ h
  | arrayOf inner | not inner =>
      rw [Split.parts, List.mem_singleton] at hpart
      rwa [hpart] at h

theorem Split.narrows {split : Split} {read read' : List Char → Expr}
    (h : ∀ part ∈ split.parts, Narrows defined defined' (read part) (read' part)) :
    Narrows defined defined' (split.tree read) (split.tree read') := by
  intro hall name hname
  obtain ⟨part, hpart, hname⟩ := Split.mem_names_tree hname
  refine (h part hpart (fun other hother => ?_) name hname).imp
    (Split.mem_names_of_mem_parts hpart) id
  exact hall other (Split.mem_names_of_mem_parts hpart hother)

/-- An empty operand is the empty name. -/
theorem Split.empty_mem_names {split : Split} (h : [] ∈ split.parts) (groups : List Expr) :
    "" ∈ (split.tree (parseFlat defined groups)).names := by
  have hnil : parseFlat defined groups [] = .named "" :=
    parseTrimmed_of_no_split rfl (by decide)
  apply Split.mem_names_of_mem_parts h
  rw [hnil]
  exact List.mem_singleton_self ""

/-- A text that has become a name is read as the name. -/
theorem narrows_of_defined (hempty : defined' "" = false) {text : List Char}
    (hnew : defined' (String.ofList text) = true) (groups : List Expr) :
    Narrows defined defined' (parseTrimmed defined groups text)
      (.named (String.ofList text)) := by
  by_cases hold : defined (String.ofList text) = true
  · rw [parseTrimmed_of_defined hold]
    exact .refl _
  · rw [Bool.not_eq_true] at hold
    by_cases hwhole : Indivisible (String.ofList text)
    · have hfind := hwhole.ungrouped groups
      have hsplits := hwhole.whole
      rw [String.toList_ofList] at hfind hsplits
      cases hsplit : split? text with
      | none =>
          rw [parseTrimmed_of_no_split hfind hsplit]
          exact .refl _
      | some split =>
          rw [parseTrimmed_of_split hold hfind hsplit]
          exact narrows_of_mem (split.empty_mem_names (hsplits split hsplit) groups) hempty _
    · exact narrows_named hold hnew hwhole _

theorem narrows_parseTrimmed (hempty : defined' "" = false)
    (hgrow : ∀ name, defined name = true → defined' name = true) {groups groups' : List Expr}
    (hgroups : List.Forall₂ (Narrows defined defined') groups groups') (text : List Char) :
    Narrows defined defined' (parseTrimmed defined groups text)
      (parseTrimmed defined' groups' text) := by
  refine parseTrimmed_induction
    (motive := fun text tree => Narrows defined defined' tree (parseTrimmed defined' groups' text))
    ?_ ?_ ?_ text
  · rintro text (hdefined | ⟨_, hfind, hsplit⟩)
    · rw [parseTrimmed_of_defined (hgrow _ hdefined)]
      exact .refl _
    · rcases Groups.find?_forall₂ hgroups text with ⟨_, hfind'⟩ | ⟨tree, _, htree, _⟩
      · rw [parseTrimmed_of_no_split hfind' hsplit]
        exact .refl _
      · rw [hfind] at htree
        cases htree
  · intro text tree hdefined hfind
    by_cases hnew : defined' (String.ofList text) = true
    · rw [parseTrimmed_of_defined hnew, ← parseTrimmed_of_find? hdefined hfind]
      exact narrows_of_defined hempty hnew groups
    · rw [Bool.not_eq_true] at hnew
      rcases Groups.find?_forall₂ hgroups text with ⟨hnone, _⟩ | ⟨old, tree', hold, hfind', hrel⟩
      · rw [hfind] at hnone
        cases hnone
      · rw [hfind] at hold
        cases hold
        rwa [parseTrimmed_of_find? hnew hfind']
  · intro text split hdefined hfind hsplit ih
    by_cases hnew : defined' (String.ofList text) = true
    · rw [parseTrimmed_of_defined hnew, ← parseTrimmed_of_split hdefined hfind hsplit]
      exact narrows_of_defined hempty hnew groups
    · rw [Bool.not_eq_true] at hnew
      rcases Groups.find?_forall₂ hgroups text with ⟨_, hfind'⟩ | ⟨tree, _, htree, _⟩
      · rw [parseTrimmed_of_split hnew hfind' hsplit]
        exact Split.narrows ih
      · rw [hfind] at htree
        cases htree

/-- Defining more names narrows the tree of every text. -/
theorem narrows_parse (hempty : defined' "" = false)
    (hgrow : ∀ name, defined name = true → defined' name = true) (source : String) :
    Narrows defined defined' (parse defined source) (parse defined' source) := by
  have hflat (groups groups' : List Expr) (text : List Char)
      (hgroups : List.Forall₂ (Narrows defined defined') groups groups') :
      Narrows defined defined' (parseFlat defined groups text) (parseFlat defined' groups' text) :=
    narrows_parseTrimmed hempty hgrow hgroups (trim text)
  obtain ⟨hgroups, hrest⟩ := Groups.takeOut_forall₂ hflat .nil (trim source.toList)
  have hread := hflat _ _ (Groups.takeOut (parseFlat defined) [] (trim source.toList)).2 hgroups
  change Narrows defined defined' (parseFlat defined _ _)
    (parseFlat defined' _ (Groups.takeOut (parseFlat defined') [] (trim source.toList)).2)
  rwa [← hrest]

end Parser

end Switchboard
