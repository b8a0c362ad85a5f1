import Switchboard.Proofs.Grouping

/-!
The names that reading a text can make. A name is a stretch of a text in normal
spelling, so it has no operator signs; it stands between trimmed edges; it holds no
group; and it is a name because it is defined or because nothing in it splits. A
stretch that a placeholder has been put into is such a name too.
-/

namespace Switchboard

open Text
open Switchboard.Groups (Groupless placeholder openMark closeMark)
open Switchboard.Spelling (SignFree)

namespace Groups

theorem signFree_placeholder (index : Nat) : SignFree (placeholder index) := by
  have hdigits : SignFree (Nat.toDigits 10 index) := by
    apply Spelling.signFree_of_all_isPlain
    rw [List.all_eq_true]
    intro c hc
    have hdigit : c.isDigit = true := Nat.isDigit_of_mem_toDigits (by decide) (by decide) hc
    simp [isPlain, Char.isAlphanum, hdigit]
  have hclose : SignFree [closeMark] := ⟨by decide, .singleton _⟩
  rw [placeholder, List.cons_append, Spelling.signFree_cons]
  refine ⟨by decide, ?_, hdigits.append hclose ?_⟩
  · rintro d _ (⟨hmark, _⟩ | ⟨hmark, _⟩ | ⟨hmark, _⟩) <;> exact absurd hmark (by decide)
  · rintro x _ y ⟨⟩ (⟨_, hmark⟩ | ⟨_, hmark⟩ | ⟨_, hmark⟩) <;> exact absurd hmark (by decide)

theorem signFree_replaceGroup {before inner after : List Char} (index : Nat)
    (h : SignFree (before ++ '(' :: inner ++ ')' :: after)) :
    SignFree (replaceGroup index before after) := by
  have hspace : isBlank ' ' = true := by decide
  have hbefore : SignFree before := h.of_isInfix ⟨[], '(' :: inner ++ ')' :: after, by simp⟩
  have hafter : SignFree after := h.of_isInfix ⟨before ++ '(' :: inner ++ [')'], [], by simp⟩
  have htail : SignFree (placeholder index ++ ' ' :: after) := by
    apply (signFree_placeholder index).append (hafter.cons (Or.inl hspace))
    rintro x _ y ⟨⟩
    exact Spelling.not_clash_blank_right hspace x
  have hwhole : SignFree (before ++ ' ' :: placeholder index ++ ' ' :: after) := by
    rw [List.append_assoc]
    apply hbefore.append (htail.cons (Or.inl hspace))
    rintro x _ y ⟨⟩
    exact Spelling.not_clash_blank_right hspace x
  exact hwhole.of_isInfix (Parser.trim_isInfix _)

end Groups

namespace Parser

/-- A name as reading makes them. -/
structure ReadName (defined : String → Bool) (name : String) : Prop where
  signFree : SignFree name.toList
  trimmed : Trimmed name.toList
  groupless : Groupless name.toList
  line : '\n' ∉ name.toList
  whole : defined name = true ∨ split? name.toList = none

/-- All names of a tree are as reading makes them. -/
def ReadNames (defined : String → Bool) (tree : Expr) : Prop :=
  ∀ name ∈ tree.names, ReadName defined name

variable {defined : String → Bool} {left right inner : Expr}

theorem readNames_named {name : String} :
    ReadNames defined (.named name) ↔ ReadName defined name := by
  simp [ReadNames, Expr.names]

theorem ReadNames.or (h : ReadNames defined (.or left right)) :
    ReadNames defined left ∧ ReadNames defined right :=
  ⟨fun name hname => h name (List.mem_append_left _ hname),
    fun name hname => h name (List.mem_append_right _ hname)⟩

theorem ReadNames.and (h : ReadNames defined (.and left right)) :
    ReadNames defined left ∧ ReadNames defined right :=
  ⟨fun name hname => h name (List.mem_append_left _ hname),
    fun name hname => h name (List.mem_append_right _ hname)⟩

theorem ReadNames.not (h : ReadNames defined (.not inner)) : ReadNames defined inner := h

theorem ReadNames.arrayOf (h : ReadNames defined (.arrayOf inner)) : ReadNames defined inner := h

theorem readNames_parseTrimmed {groups : List Expr} {text : List Char}
    (hgroups : ∀ group ∈ groups, ReadNames defined group) (htrimmed : Trimmed text)
    (hsigns : SignFree text) (hgroupless : Groupless text) (hline : '\n' ∉ text) :
    ReadNames defined (parseTrimmed defined groups text) := by
  revert htrimmed hsigns hgroupless hline
  refine parseTrimmed_induction (motive := fun text tree => Trimmed text → SignFree text →
    Groupless text → '\n' ∉ text → ReadNames defined tree) ?_ ?_ ?_ text
  · intro text hwhole htrimmed hsigns hgroupless hline
    rw [readNames_named]
    refine ⟨?_, ?_, ?_, ?_, ?_⟩
    · rwa [String.toList_ofList]
    · rwa [String.toList_ofList]
    · rwa [String.toList_ofList]
    · rwa [String.toList_ofList]
    · rw [String.toList_ofList]
      exact hwhole.imp id fun h => h.2.2
  · intro text tree _ hfind _ _ _ _
    exact hgroups tree (Groups.mem_of_find? hfind)
  · intro text split _ _ hsplit ih _ hsigns hgroupless hline name hname
    obtain ⟨part, hpart, hname⟩ := Split.mem_names_tree hname
    have hinfix : trim part <:+: text :=
      (trim_isInfix part).trans (isInfix_of_mem_parts hsplit hpart)
    exact ih part hpart (trimmed_trim part) (hsigns.of_isInfix hinfix)
      (hgroupless.of_isInfix hinfix) (fun hmem => hline (List.IsInfix.subset hinfix hmem)) name hname

theorem readNames_parseFlat {groups : List Expr} {text : List Char}
    (hgroups : ∀ group ∈ groups, ReadNames defined group) (hsigns : SignFree text)
    (hgroupless : Groupless text) (hline : '\n' ∉ text) :
    ReadNames defined (parseFlat defined groups text) :=
  readNames_parseTrimmed hgroups (trimmed_trim text) (hsigns.of_isInfix (trim_isInfix text))
    (hgroupless.of_isInfix (trim_isInfix text)) (lineFeed_notMem_trim hline)

/-- Every name of a tree that is read from a normal spelling. -/
theorem readNames_parse (defined : String → Bool) (source : String) :
    ReadNames defined (parse defined (Spelling.normalize source)) := by
  let fair (text : List Char) : Prop := SignFree text ∧ '\n' ∉ text
  have hsource : fair (trim (Spelling.normalize source).toList) := by
    rw [Spelling.toList_normalize]
    exact ⟨(Spelling.signFree_normalChars _).of_isInfix (trim_isInfix _),
      lineFeed_notMem_trim (Spelling.lineFeed_notMem_weigh _)⟩
  have hstep (groups : List Expr) (before inner after : List Char)
      (hgroups : ∀ group ∈ groups, ReadNames defined group) (hopen : '(' ∉ inner)
      (_ : ')' ∉ inner) (hfair : fair (before ++ '(' :: inner ++ ')' :: after)) :
      ReadNames defined (parseFlat defined groups (trim inner)) ∧
        fair (Groups.replaceGroup groups.length before after) := by
    obtain ⟨hsigns, hline⟩ := hfair
    have hinner : SignFree inner := hsigns.of_isInfix ⟨before ++ ['('], ')' :: after, by simp⟩
    refine ⟨?_, Groups.signFree_replaceGroup _ hsigns, Groups.lineFeed_notMem_replaceGroup _ hline⟩
    exact readNames_parseFlat hgroups (hinner.of_isInfix (trim_isInfix inner))
      (Groups.groupless_of_notMem fun hmem => hopen ((trim_sublist inner).subset hmem))
      (lineFeed_notMem_trim fun hmem => hline (by simp [hmem]))
  obtain ⟨hgroups, hrest, hsigns, hline⟩ := Groups.takeOut_induction (ReadNames defined) fair hstep
    [] _ (by simp) hsource
  exact readNames_parseFlat hgroups hsigns hrest hline

end Parser

end Switchboard
