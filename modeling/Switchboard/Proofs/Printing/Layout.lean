import Switchboard.Proofs.Printing.Between
import Switchboard.Proofs.Printing.Names
import Switchboard.Proofs.Printing.Weighing

/-!
The text that a tree prints, in normal spelling and with its groups taken out. Both are
laid out by the tree alone: the normal spelling puts each keyword between the spellings of
its operands, and the flat text has a placeholder where a group was printed. Groups are
numbered in the order in which they close, so the number of a group is the count of
the groups before it and inside it.
-/

namespace Switchboard

open Text
open Switchboard.Spelling (between normalChars weigh)
open Switchboard.Parser (orWord andWord notWord arrayWord parseFlat ReadName ReadNames)
open Switchboard.Groups (placeholder Clears)

namespace Expr

/-- How many groups a tree prints. -/
def groups : Expr → Nat
  | named _ => 0
  | or left right => left.groups + right.groups + 1
  | and left right => left.groups + right.groups + 1
  | not inner => if inner.isArrayOf then inner.groups + 1 else inner.groups
  | arrayOf inner => inner.groups

/-- A text in parentheses. -/
def grouped (text : List Char) : List Char :=
  ['('] ++ (text ++ [')'])

/-- What is left of a group in a flat text. -/
def takenGroup (index : Nat) : List Char :=
  [' '] ++ (placeholder index ++ [' '])

/-- The normal spelling of what a tree prints. -/
def spelled : Expr → List Char
  | named name => normalChars name.toList
  | or left right => grouped (between left.spelled orWord right.spelled)
  | and left right => grouped (between left.spelled andWord right.spelled)
  | not inner =>
      between [] notWord (if inner.isArrayOf then grouped inner.spelled else inner.spelled)
  | arrayOf inner => between inner.spelled arrayWord []

/-- The text of a tree with its groups taken out, numbered from `start` on. -/
def flat (start : Nat) : Expr → List Char
  | named name => normalChars name.toList
  | or left right => takenGroup (start + left.groups + right.groups)
  | and left right => takenGroup (start + left.groups + right.groups)
  | not inner =>
      between [] notWord
        (if inner.isArrayOf then takenGroup (start + inner.groups) else inner.flat start)
  | arrayOf inner => between (inner.flat start) arrayWord []

/-- The groups after those of a tree have been taken out. -/
def takenOut (defined : String → Bool) (taken : List Expr) : Expr → List Expr
  | named _ => taken
  | or left right =>
      let before := (right.takenOut defined (left.takenOut defined taken))
      before ++ [parseFlat defined before
        (between (left.flat taken.length) orWord (right.flat (taken.length + left.groups)))]
  | and left right =>
      let before := (right.takenOut defined (left.takenOut defined taken))
      before ++ [parseFlat defined before
        (between (left.flat taken.length) andWord (right.flat (taken.length + left.groups)))]
  | not inner =>
      let before := inner.takenOut defined taken
      if inner.isArrayOf then before ++ [parseFlat defined before (inner.flat taken.length)]
      else before
  | arrayOf inner => inner.takenOut defined taken

theorem length_takenOut (defined : String → Bool) (taken : List Expr) (tree : Expr) :
    (tree.takenOut defined taken).length = taken.length + tree.groups := by
  induction tree generalizing taken with
  | named _ => rfl
  | or left right ihl ihr | and left right ihl ihr =>
      simp only [takenOut, groups, List.length_append, List.length_singleton, ihr, ihl]
      omega
  | not inner ih =>
      simp only [takenOut, groups]
      split
      · rw [List.length_append, ih, List.length_singleton]
        omega
      · exact ih taken
  | arrayOf inner ih => exact ih taken

theorem toList_render_or (left right : Expr) : (Expr.or left right).render.toList =
    grouped (left.render.toList ++ ' ' :: orWord ++ ' ' :: right.render.toList) := by
  simp [render, grouped]

theorem toList_render_and (left right : Expr) : (Expr.and left right).render.toList =
    grouped (left.render.toList ++ ' ' :: andWord ++ ' ' :: right.render.toList) := by
  simp [render, grouped]

theorem toList_render_not (inner : Expr) : (Expr.not inner).render.toList = notWord ++ ' ' ::
    (if inner.isArrayOf then grouped inner.render.toList else inner.render.toList) := by
  rw [render]
  split <;> simp [grouped]

theorem toList_render_arrayOf (inner : Expr) : (Expr.arrayOf inner).render.toList =
    inner.render.toList ++ ' ' :: arrayWord := by
  simp [render]

open Switchboard.Spelling

/-- A printed tree has no signs, since its names have none. -/
theorem signFree_render {defined : String → Bool} {tree : Expr}
    (h : ReadNames defined tree) : SignFree tree.render.toList := by
  have hspace : isBlank ' ' = true := by decide
  have hspaced {before after : List Char} (hbefore : SignFree before) (hafter : SignFree after) :
      SignFree (before ++ ' ' :: after) := by
    apply hbefore.append (hafter.cons (Or.inl hspace))
    rintro x _ y ⟨⟩
    exact not_clash_blank_right hspace x
  have hkeyword (operator : Operator) : SignFree operator.keyword :=
    signFree_of_all_isPlain (by cases operator <;> rfl)
  have hgrouped {text : List Char} (htext : SignFree text) : SignFree (grouped text) := by
    have hopen : SignFree ['('] := ⟨by decide, .singleton _⟩
    have hclose : SignFree [')'] := ⟨by decide, .singleton _⟩
    apply hopen.append (htext.append hclose ?_)
    · rintro x ⟨⟩ y _ (⟨hx, _⟩ | ⟨hx, _⟩ | ⟨hx, _⟩) <;> exact absurd hx (by decide)
    · rintro x _ y ⟨⟩ (⟨_, hy⟩ | ⟨_, hy⟩ | ⟨_, hy⟩) <;> exact absurd hy (by decide)
  induction tree with
  | named name => exact (Parser.readNames_named.mp h).signFree
  | or left right ihl ihr =>
      rw [toList_render_or]
      exact hgrouped (hspaced (hspaced (ihl h.or.1) (hkeyword .or)) (ihr h.or.2))
  | and left right ihl ihr =>
      rw [toList_render_and]
      exact hgrouped (hspaced (hspaced (ihl h.and.1) (hkeyword .and)) (ihr h.and.2))
  | not inner ih =>
      rw [toList_render_not]
      apply hspaced (hkeyword .not)
      split
      · exact hgrouped (ih h)
      · exact ih h
  | arrayOf inner ih =>
      rw [toList_render_arrayOf]
      exact hspaced (ih h) (hkeyword .array)

theorem snug_render {defined : String → Bool} {tree : Expr} (h : ReadNames defined tree) :
    SnugHead tree.render.toList ∧ SnugLast tree.render.toList := by
  have hgrouped (text : List Char) : SnugHead (grouped text) ∧ SnugLast (grouped text) := by
    refine ⟨Or.inl ?_, Or.inl ?_⟩
    · rintro c ⟨⟩
      decide
    · intro c hc
      rw [grouped, ← List.append_assoc, List.getLast?_concat] at hc
      cases hc
      decide
  induction tree with
  | named name =>
      have htrimmed := (Parser.readNames_named.mp h).trimmed
      exact ⟨Or.inl htrimmed.1, Or.inl htrimmed.2⟩
  | or left right ihl ihr =>
      rw [toList_render_or]
      exact hgrouped _
  | and left right ihl ihr =>
      rw [toList_render_and]
      exact hgrouped _
  | not inner ih =>
      rw [toList_render_not]
      refine ⟨Or.inl ?_, ?_⟩
      · rintro c ⟨⟩
        decide
      · have hinner : SnugLast (if inner.isArrayOf then grouped inner.render.toList
            else inner.render.toList) := by
          split
          · exact (hgrouped _).2
          · exact (ih h).2
        exact snugLast_append hinner .not []
  | arrayOf inner ih =>
      rw [toList_render_arrayOf]
      refine ⟨?_, Or.inl ?_⟩
      · have hhead := snugHead_append (ih h).1 .array []
        rwa [List.append_nil] at hhead
      · intro c hc
        rw [List.getLast?_append] at hc
        cases hc
        decide

theorem weigh_keyword (operator : Operator) : weigh operator.keyword = operator.keyword := by
  cases operator <;> rfl

/-- A spaced keyword is weighed against its neighbours. -/
theorem weigh_spaced (operator : Operator) (before after : List Char) :
    weigh (before ++ ' ' :: operator.keyword ++ ' ' :: after) =
      between (weigh before) operator.keyword (weigh after) := by
  have hspace : isBlank ' ' = true := by decide
  rw [weigh_append_blank hspace, weigh_append_blank hspace, weigh_keyword, between]

theorem weigh_grouped_spaced (operator : Operator) {before after : List Char}
    (hbefore : SnugHead before) (hafter : SnugLast after) :
    weigh (grouped (before ++ ' ' :: operator.keyword ++ ' ' :: after)) =
      grouped (between (weigh before) operator.keyword (weigh after)) := by
  have hhead := snugHead_append hbefore operator (' ' :: after)
  have hlast := snugLast_append hafter operator (before ++ [' '])
  have htext : before ++ ' ' :: operator.keyword ++ ' ' :: after =
      before ++ ' ' :: (operator.keyword ++ ' ' :: after) := by simp
  have htext' : before ++ ' ' :: operator.keyword ++ ' ' :: after =
      before ++ [' '] ++ operator.keyword ++ ' ' :: after := by simp
  rw [← htext] at hhead
  rw [← htext'] at hlast
  rw [grouped, weigh_grouped hhead hlast, weigh_spaced, grouped]

/-- The normal spelling of what a tree prints. -/
theorem normalChars_render {defined : String → Bool} {tree : Expr}
    (h : ReadNames defined tree) : normalChars tree.render.toList = tree.spelled := by
  have hspace : isBlank ' ' = true := by decide
  rw [normalChars, spellOut_of_signFree (signFree_render h)]
  induction tree with
  | named name =>
      have hsigns := (Parser.readNames_named.mp h).signFree
      rw [spelled, normalChars, spellOut_of_signFree hsigns, render]
  | or left right ihl ihr =>
      rw [toList_render_or, spelled, ← ihl h.or.1, ← ihr h.or.2]
      exact weigh_grouped_spaced .or (snug_render h.or.1).1 (snug_render h.or.2).2
  | and left right ihl ihr =>
      rw [toList_render_and, spelled, ← ihl h.and.1, ← ihr h.and.2]
      exact weigh_grouped_spaced .and (snug_render h.and.1).1 (snug_render h.and.2).2
  | not inner ih =>
      rw [toList_render_not, weigh_append_blank hspace, spelled]
      have hinner : weigh (if inner.isArrayOf then grouped inner.render.toList
          else inner.render.toList) =
          if inner.isArrayOf then grouped inner.spelled else inner.spelled := by
        split
        · rw [grouped, weigh_grouped (snug_render h.not).1 (snug_render h.not).2, ih h.not]
          rfl
        · exact ih h.not
      rw [hinner]
      rfl
  | arrayOf inner ih =>
      rw [toList_render_arrayOf, weigh_append_blank hspace, ih h.arrayOf, spelled, between,
        glue_nil]
      rfl

/-! Taking the groups out of a printed text -/

/-- The flat text has plain characters at its ends where the printed text has. -/
theorem flat_ends (tree : Expr) (start : Nat) :
    (tree.flat start).getLast?.map isPlain = tree.spelled.getLast?.map isPlain ∧
      (tree.flat start).head?.map isPlain = tree.spelled.head?.map isPlain := by
  have hgroup (index : Nat) (text : List Char) :
      (takenGroup index).getLast?.map isPlain = (grouped text).getLast?.map isPlain ∧
        (takenGroup index).head?.map isPlain = (grouped text).head?.map isPlain := by
    refine ⟨?_, rfl⟩
    rw [takenGroup, grouped, ← List.append_assoc, ← List.append_assoc, List.getLast?_concat,
      List.getLast?_concat]
    rfl
  induction tree generalizing start with
  | named _ => exact ⟨rfl, rfl⟩
  | or _ _ _ _ => exact hgroup _ _
  | and _ _ _ _ => exact hgroup _ _
  | not inner ih =>
      rw [flat, spelled]
      refine ⟨?_, ?_⟩
      · refine (getLast?_between .not _ _).trans (Eq.trans ?_ (getLast?_between .not _ _).symm)
        split
        · rw [(hgroup _ _).1]
        · rw [(ih start).1]
      · exact (head?_between .not _ _).trans (head?_between .not _ _).symm
  | arrayOf inner ih =>
      rw [flat, spelled]
      refine ⟨?_, ?_⟩
      · exact (getLast?_between .array _ _).trans (getLast?_between .array _ _).symm
      · refine (head?_between .array _ _).trans (Eq.trans ?_ (head?_between .array _ _).symm)
        rw [(ih start).2]

/-- A character that no name has, and no keyword and placeholder, is not in the flat
text. -/
theorem notMem_flat {defined : String → Bool} {tree : Expr} (h : ReadNames defined tree) {c : Char}
    (hblank : isBlank c = false) (hkeyword : ∀ operator : Operator, c ∉ operator.keyword)
    (hgroup : ∀ index, c ∉ placeholder index) (hnames : ∀ name ∈ tree.names, c ∉ name.toList)
    (start : Nat) : c ∉ tree.flat start := by
  have hspace : c ≠ ' ' := by
    rintro rfl
    exact absurd hblank (by decide)
  have htaken (index : Nat) : c ∉ takenGroup index := by simp [takenGroup, hspace, hgroup]
  induction tree with
  | named name =>
      have hsigns := (Parser.readNames_named.mp h).signFree
      rw [flat, normalChars, spellOut_of_signFree hsigns, mem_weigh hblank]
      exact hnames name (by simp [names])
  | or _ _ _ _ => exact htaken _
  | and _ _ _ _ => exact htaken _
  | not inner ih =>
      apply notMem_between hspace (hkeyword .not) (by simp)
      split
      · exact htaken _
      · exact ih h hnames
  | arrayOf inner ih => exact notMem_between hspace (hkeyword .array) (ih h hnames) (by simp)

theorem lineFeed_notMem_takenGroup (index : Nat) : '\n' ∉ takenGroup index := by
  simp [takenGroup, Groups.lineFeed_notMem_placeholder]

/-- A flat text is one line, whatever the names are. -/
theorem lineFeed_notMem_flat (tree : Expr) (start : Nat) : '\n' ∉ tree.flat start := by
  induction tree with
  | named name => exact lineFeed_notMem_weigh _
  | or _ _ _ _ => exact lineFeed_notMem_takenGroup _
  | and _ _ _ _ => exact lineFeed_notMem_takenGroup _
  | not inner ih =>
      apply lineFeed_notMem_between .not List.not_mem_nil
      split
      · exact lineFeed_notMem_takenGroup _
      · exact ih
  | arrayOf inner ih => exact lineFeed_notMem_between .array ih List.not_mem_nil

/-- No name of a tree has a parenthesis. -/
def ParenFree (tree : Expr) : Prop :=
  ∀ name ∈ tree.names, '(' ∉ name.toList ∧ ')' ∉ name.toList

theorem paren_notMem_flat {defined : String → Bool} {tree : Expr} (h : ReadNames defined tree)
    (hnames : tree.ParenFree) (start : Nat) : '(' ∉ tree.flat start ∧ ')' ∉ tree.flat start := by
  have hclose (index : Nat) : ')' ∉ placeholder index := by
    intro hc
    rcases Groups.of_mem_placeholder hc with hc | hc | hc <;> exact absurd hc (by decide)
  exact ⟨notMem_flat h (by decide) (fun operator => (Parser.paren_notMem_keyword operator).1)
      Groups.not_mem_placeholder (fun name hname => (hnames name hname).1) start,
    notMem_flat h (by decide) (fun operator => (Parser.paren_notMem_keyword operator).2)
      hclose (fun name hname => (hnames name hname).2) start⟩

/-- The groups on both sides of a keyword are taken out from left to right. -/
theorem clears_between {parse : List Expr → List Char → Expr} (operator : Operator)
    {taken middle last : List Expr} {before after before' after' : List Char}
    (hbefore : Clears parse taken before middle before')
    (hafter : Clears parse middle after last after') (hclose : ')' ∉ before')
    (hlast : before'.getLast?.map isPlain = before.getLast?.map isPlain)
    (hhead : after'.head?.map isPlain = after.head?.map isPlain) :
    Clears parse taken (between before operator.keyword after) last
      (between before' operator.keyword after') := by
  have hgap (plain : Option Bool) : ')' ∉ gapBeside plain := by
    rcases gapBeside_cases plain with hgap | hgap <;> simp [hgap]
  have hkeyword := (Parser.paren_notMem_keyword operator).2
  rw [between_keyword, between_keyword, hlast, hhead, List.append_assoc, List.append_assoc]
  refine hbefore.append hclose ?_
  refine (Clears.refl middle _).append (hgap _) ?_
  refine (Clears.refl middle _).append hkeyword ?_
  exact (Clears.refl middle _).append (hgap _) hafter

theorem clears_grouped {defined : String → Bool} {taken middle : List Expr} {text text' : List Char}
    (h : Clears (parseFlat defined) taken text middle text') (hopen : '(' ∉ text')
    (hclose : ')' ∉ text') :
    Clears (parseFlat defined) taken (grouped text) (middle ++ [parseFlat defined middle text'])
      (takenGroup middle.length) := by
  have hgroup := h.group hopen hclose
  rwa [parseFlat, trim_trim, ← parseFlat] at hgroup

/-- The group around two operands is taken out after the groups in them. -/
theorem clears_operator {defined : String → Bool} (operator : Operator) {left right : Expr}
    (hleft : ReadNames defined left) (hright : ReadNames defined right)
    (hnames : left.ParenFree) (hnames' : right.ParenFree) {taken : List Expr}
    (ihl : Clears (parseFlat defined) taken left.spelled (left.takenOut defined taken)
      (left.flat taken.length))
    (ihr : Clears (parseFlat defined) (left.takenOut defined taken) right.spelled
      (right.takenOut defined (left.takenOut defined taken))
      (right.flat (left.takenOut defined taken).length)) :
    Clears (parseFlat defined) taken
      (grouped (between left.spelled operator.keyword right.spelled))
      (right.takenOut defined (left.takenOut defined taken) ++
        [parseFlat defined (right.takenOut defined (left.takenOut defined taken))
          (between (left.flat taken.length) operator.keyword
            (right.flat (taken.length + left.groups)))])
      (takenGroup (taken.length + left.groups + right.groups)) := by
  rw [length_takenOut] at ihr
  obtain ⟨hopenLeft, hcloseLeft⟩ := paren_notMem_flat hleft hnames taken.length
  obtain ⟨hopenRight, hcloseRight⟩ :=
    paren_notMem_flat hright hnames' (taken.length + left.groups)
  obtain ⟨hopen, hclose⟩ := Parser.paren_notMem_keyword operator
  have hbetween := clears_between operator ihl ihr hcloseLeft (left.flat_ends _).1
    (right.flat_ends _).2
  have hgrouped := clears_grouped hbetween
    (notMem_between (by simp) hopen hopenLeft hopenRight)
    (notMem_between (by simp) hclose hcloseLeft hcloseRight)
  rwa [length_takenOut, length_takenOut] at hgrouped

/-- Taking the groups out of a printed text leaves its flat text. -/
theorem clears_spelled {defined : String → Bool} {tree : Expr} (h : ReadNames defined tree)
    (hnames : tree.ParenFree) (taken : List Expr) :
    Clears (parseFlat defined) taken tree.spelled (tree.takenOut defined taken)
      (tree.flat taken.length) := by
  induction tree generalizing taken with
  | named name => exact .refl taken _
  | or left right ihl ihr =>
      obtain ⟨hleft, hright⟩ := List.forall_mem_append.mp hnames
      exact clears_operator .or h.or.1 h.or.2 hleft hright (ihl h.or.1 hleft taken)
        (ihr h.or.2 hright _)
  | and left right ihl ihr =>
      obtain ⟨hleft, hright⟩ := List.forall_mem_append.mp hnames
      exact clears_operator .and h.and.1 h.and.2 hleft hright (ihl h.and.1 hleft taken)
        (ihr h.and.2 hright _)
  | not inner ih =>
      have hinner := ih h hnames taken
      obtain ⟨hopen, hclose⟩ := paren_notMem_flat h.not hnames taken.length
      rw [spelled, takenOut, flat]
      split
      · have hgrouped := clears_grouped hinner hopen hclose
        rw [length_takenOut] at hgrouped
        exact clears_between .not (.refl taken []) hgrouped (by simp) rfl rfl
      · exact clears_between .not (.refl taken []) hinner (by simp) rfl (inner.flat_ends _).2
  | arrayOf inner ih =>
      obtain ⟨_, hclose⟩ := paren_notMem_flat h.arrayOf hnames taken.length
      exact clears_between .array (ih h hnames taken) (.refl _ []) hclose (inner.flat_ends _).1 rfl

end Expr

end Switchboard
