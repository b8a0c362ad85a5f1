import Switchboard.Proofs.Printing.Layout

/-!
Which trees are read back from what they print. Five things can go wrong. A name is
spelled anew and comes back changed; a name is the placeholder of a group and comes back
as that group; a word character of another script runs into the keyword beside it; `not`
before the name `array` is read as an array; and an array of the empty name is read as the
name `array`. A tree in which none of them happens is legible, and only these are read
back.
-/

namespace Switchboard

open Text
open Switchboard.Spelling (between normalChars normalize)
open Switchboard.Parser (orWord andWord notWord arrayWord parseFlat ReadName ReadNames Free
  ArrayNamed)
open Switchboard.Groups (openMark closeMark placeholder)

namespace Groups

/-- The number of the group that a text stands for, if it is written like a placeholder. -/
def number? : List Char → Option Nat
  | [] => none
  | c :: rest =>
      if c = openMark && rest.getLast? = some closeMark then readIndex? rest.dropLast else none

theorem find?_eq_bind (groups : List Expr) (text : List Char) :
    find? groups text = (number? text).bind fun index => groups[index]? := by
  cases text with
  | nil => rfl
  | cons c rest =>
      rw [find?, number?]
      split <;> rfl

theorem find?_eq_none_iff (groups : List Expr) (text : List Char) :
    find? groups text = none ↔ ∀ index ∈ number? text, groups.length ≤ index := by
  rw [find?_eq_bind]
  cases number? text <;> simp

end Groups

namespace Expr

/-- A tree that is read back from its printed text. `start` is the number that its first
group gets, and `taken` says how many groups have been taken out when its text is read. -/
def Legible (start taken : Nat) : Expr → Prop
  | named name =>
      normalize name = name ∧ ∀ index ∈ Groups.number? name.toList, taken ≤ index
  | or left right =>
      (endsWide left.render.toList = false ∧ startsWide right.render.toList = false) ∧
        left.Legible start (start + left.groups + right.groups) ∧
        right.Legible (start + left.groups) (start + left.groups + right.groups)
  | and left right =>
      (endsWide left.render.toList = false ∧ startsWide right.render.toList = false) ∧
        left.Legible start (start + left.groups + right.groups) ∧
        right.Legible (start + left.groups) (start + left.groups + right.groups)
  | not inner =>
      if inner.isArrayOf then inner.Legible start (start + inner.groups)
      else inner ≠ named "array" ∧ startsWide inner.render.toList = false ∧
        inner.Legible start taken
  | arrayOf inner =>
      inner ≠ named "" ∧ endsWide inner.render.toList = false ∧ inner.Legible start taken

/-! Flat texts and printed texts at their ends -/

theorem endsWide_append {before after : List Char} (hbefore : endsWide before = false) :
    endsWide (before ++ after) = endsWide after := by
  rw [endsWide, endsWide, List.getLast?_append]
  cases hlast : after.getLast? with
  | none => rw [Option.none_or]; exact hbefore
  | some c => rfl

theorem startsWide_append {before after : List Char} (hafter : startsWide after = false) :
    startsWide (before ++ after) = startsWide before := by
  rw [startsWide, startsWide, List.head?_append]
  cases hhead : before.head? with
  | none => rw [Option.none_or]; exact hafter
  | some c => rfl

theorem wide_between (operator : Operator) (before after : List Char) :
    endsWide (between before operator.keyword after) = endsWide after ∧
      startsWide (between before operator.keyword after) = startsWide before := by
  obtain ⟨k, hlast, hk⟩ : ∃ k, operator.keyword.getLast? = some k ∧ isWide k = false := by
    cases operator <;> exact ⟨_, rfl, by decide⟩
  obtain ⟨k', hhead, hk'⟩ : ∃ k, operator.keyword.head? = some k ∧ isWide k = false := by
    cases operator <;> exact ⟨_, rfl, by decide⟩
  have hspace : isWide ' ' = false := by decide
  rw [Spelling.between_keyword]
  refine ⟨?_, ?_⟩
  · rw [← List.append_assoc, ← List.append_assoc]
    apply endsWide_append
    rcases Spelling.gapBeside_cases (after.head?.map isPlain) with hgap | hgap <;>
      simp [hgap, endsWide, List.getLast?_append, hlast, hk, hspace]
  · rw [List.append_assoc]
    apply startsWide_append
    rcases Spelling.gapBeside_cases (before.getLast?.map isPlain) with hgap | hgap <;>
      simp [hgap, startsWide, List.head?_append, hhead, hk', hspace]

/-- The flat text has word characters of other scripts at its ends where the printed text
has. -/
theorem wide_flat {defined : String → Bool} {tree : Expr} (h : ReadNames defined tree)
    (start : Nat) : endsWide (tree.flat start) = endsWide tree.render.toList ∧
      startsWide (tree.flat start) = startsWide tree.render.toList := by
  have hgroup (index : Nat) (text : List Char) :
      endsWide (takenGroup index) = endsWide (grouped text) ∧
        startsWide (takenGroup index) = startsWide (grouped text) := by
    have hspace : isWide ' ' = false := by decide
    refine ⟨?_, hspace⟩
    rw [takenGroup, grouped, ← List.append_assoc, ← List.append_assoc, endsWide, endsWide,
      List.getLast?_concat, List.getLast?_concat]
    decide
  induction tree generalizing start with
  | named name =>
      have hname := Parser.readNames_named.mp h
      rw [flat, normalChars, Spelling.spellOut_of_signFree hname.signFree, endsWide, startsWide,
        Spelling.getLast?_weigh hname.trimmed.2, Spelling.head?_weigh hname.trimmed.1]
      exact ⟨rfl, rfl⟩
  | or left right _ _ =>
      rw [toList_render_or]
      exact hgroup _ _
  | and left right _ _ =>
      rw [toList_render_and]
      exact hgroup _ _
  | not inner ih =>
      have hrender : (Expr.not inner).render.toList = notWord ++ [' '] ++
          (if inner.isArrayOf then grouped inner.render.toList else inner.render.toList) := by
        rw [toList_render_not, List.append_assoc]
        rfl
      rw [hrender, flat]
      refine ⟨?_, ?_⟩
      · rw [endsWide_append (by decide)]
        refine (wide_between .not _ _).1.trans ?_
        split
        · exact (hgroup _ _).1
        · exact (ih h start).1
      · exact (wide_between .not _ _).2
  | arrayOf inner ih =>
      rw [toList_render_arrayOf, flat]
      refine ⟨?_, ?_⟩
      · refine (wide_between .array _ _).1.trans ?_
        rw [endsWide, endsWide, List.getLast?_append]
        rfl
      · rw [startsWide_append (by decide), ← (ih h start).2]
        exact (wide_between .array _ _).2

/-! No `or` and no `and` in a flat text -/

theorem letter_notMem_takenGroup {c : Char} (hc : c.isAlpha = true) (index : Nat) :
    c ∉ takenGroup index := by
  intro hmem
  have hspace : c ≠ ' ' := by
    rintro rfl
    exact absurd hc (by decide)
  simp only [takenGroup, List.mem_append, List.mem_singleton, hspace, false_or, or_false] at hmem
  rcases Groups.of_mem_placeholder hmem with rfl | rfl | hdigit
  · exact absurd hc (by decide)
  · exact absurd hc (by decide)
  · rw [Groups.isDigit_eq_false_of_isAlpha hc] at hdigit
    cases hdigit

theorem free_takenGroup (operator : Operator) (index : Nat) :
    Free operator.keyword (takenGroup index) := by
  obtain ⟨c, hc, hletter⟩ : ∃ c ∈ operator.keyword, c.isAlpha = true :=
    List.any_eq_true.mp (by cases operator <;> rfl)
  exact Parser.free_of_notMem hc (letter_notMem_takenGroup hletter index)

/-- A name as reading makes them is free of `or` and `and`. -/
theorem free_name {defined : String → Bool} (hnames : ArrayNamed defined) {name : String}
    (h : ReadName defined name) {operator : Operator}
    (hoperator : operator = .or ∨ operator = .and) : Free operator.keyword name.toList := by
  rcases h.whole with hdefined | hsplit
  · have hplain := hnames.plain name hdefined
    rw [isPlainWord, Bool.and_eq_true] at hplain
    apply Parser.free_of_all_isWord (Parser.keyword_ne_nil operator)
    · exact fun c hc => isWord_of_isPlain (List.all_eq_true.mp hplain.2 c hc)
    · intro heq
      rw [← String.ofList_toList (s := name), heq, hnames.keyword operator] at hdefined
      rcases hoperator with rfl | rfl <;> cases hdefined
  · obtain ⟨hor, hand, _⟩ := Parser.of_split?_eq_none h.line hsplit
    rcases hoperator with rfl | rfl
    · exact hor
    · exact hand

theorem free_flat {defined : String → Bool} (hnames : ArrayNamed defined) {tree : Expr}
    (h : ReadNames defined tree) {operator : Operator}
    (hoperator : operator = .or ∨ operator = .and) (start : Nat) :
    Free operator.keyword (tree.flat start) := by
  induction tree generalizing start with
  | named name =>
      have hname := Parser.readNames_named.mp h
      rw [flat, normalChars, Spelling.spellOut_of_signFree hname.signFree]
      exact (free_name hnames hname hoperator).weigh operator
  | or _ _ _ _ => exact free_takenGroup operator _
  | and _ _ _ _ => exact free_takenGroup operator _
  | not inner ih =>
      rw [flat]
      obtain ⟨_, _, hspaced⟩ := Parser.exists_spaced .not []
        (if inner.isArrayOf then takenGroup (start + inner.groups) else inner.flat start)
      apply hspaced.free operator ?_ (Parser.free_nil _)
      · split
        · exact free_takenGroup operator _
        · exact ih h start
      · rcases hoperator with rfl | rfl <;> simp
  | arrayOf inner ih =>
      rw [flat]
      obtain ⟨_, _, hspaced⟩ := Parser.exists_spaced .array (inner.flat start) []
      apply hspaced.free operator ?_ (ih h start) (Parser.free_nil _)
      rcases hoperator with rfl | rfl <;> simp

/-! The groups of a printed text -/

/-- A group that is read as a name has a letter of its keyword in that name. -/
def Lettered (taken : List Expr) : Prop :=
  ∀ name, named name ∈ taken → ∃ c ∈ name.toList, c.isAlpha = true

theorem exists_letter_of_parseFlat {defined : String → Bool} {taken : List Expr}
    {text : List Char} {name : String} (hletter : ∃ c ∈ text, c.isAlpha = true)
    (h : parseFlat defined taken text = named name) : ∃ c ∈ name.toList, c.isAlpha = true := by
  obtain ⟨c, hc, hletter⟩ := hletter
  have hblank : isBlank c = false := isBlank_eq_false_of_isPlain (by
    simp [isPlain, Char.isAlphanum, hletter])
  have hinked (text : List Char) : c ∈ inked text ↔ c ∈ text := by simp [inked, hblank]
  have htrim : c ∈ trim text := by rwa [← hinked, inked_trim, hinked]
  have hname : name = String.ofList (trim text) := by
    by_cases hdefined : defined (String.ofList (trim text)) = true
    · rw [parseFlat, Parser.parseTrimmed_of_defined hdefined] at h
      cases h
      rfl
    · rw [Bool.not_eq_true] at hdefined
      rw [Parser.parseFlat_of_split? hdefined
        (Groups.find?_eq_none_of_mem htrim hletter taken)] at h
      cases hsplit : Parser.split? (trim text) with
      | none =>
          rw [hsplit] at h
          cases h
          rfl
      | some split =>
          rw [hsplit] at h
          cases split <;> cases h
  exact ⟨c, by rwa [hname, String.toList_ofList], hletter⟩

theorem letter_mem_between (operator : Operator) (before after : List Char) :
    ∃ c ∈ between before operator.keyword after, c.isAlpha = true := by
  obtain ⟨c, hc, hletter⟩ : ∃ c ∈ operator.keyword, c.isAlpha = true :=
    List.any_eq_true.mp (by cases operator <;> rfl)
  refine ⟨c, ?_, hletter⟩
  rw [Spelling.between_keyword]
  simp [hc]

theorem lettered_append {defined : String → Bool} {taken : List Expr} (h : Lettered taken)
    {text : List Char} (hletter : ∃ c ∈ text, c.isAlpha = true) :
    Lettered (taken ++ [parseFlat defined taken text]) := by
  intro name hname
  rw [List.mem_append, List.mem_singleton] at hname
  rcases hname with hname | hname
  · exact h name hname
  · exact exists_letter_of_parseFlat hletter hname.symm

theorem lettered_takenOut {defined : String → Bool} (tree : Expr) {taken : List Expr}
    (h : Lettered taken) : Lettered (tree.takenOut defined taken) := by
  induction tree generalizing taken with
  | named _ => exact h
  | or left right ihl ihr => exact lettered_append (ihr (ihl h)) (letter_mem_between .or _ _)
  | and left right ihl ihr => exact lettered_append (ihr (ihl h)) (letter_mem_between .and _ _)
  | not inner ih =>
      rw [takenOut]
      split
      · next harray =>
          cases inner with
          | arrayOf operand => exact lettered_append (ih h) (letter_mem_between .array _ _)
          | _ => cases harray
      · exact ih h
  | arrayOf inner ih => exact ih h

/-- Groups are taken out in front of those that are taken out later. -/
theorem takenOut_isPrefix (defined : String → Bool) (tree : Expr) (taken : List Expr) :
    taken <+: tree.takenOut defined taken := by
  induction tree generalizing taken with
  | named _ => exact List.prefix_rfl
  | or left right ihl ihr | and left right ihl ihr =>
      exact ((ihl taken).trans (ihr _)).trans (List.prefix_append _ _)
  | not inner ih =>
      rw [takenOut]
      split
      · exact (ih taken).trans (List.prefix_append _ _)
      · exact ih taken
  | arrayOf inner ih => exact ih taken

/-! Reading a flat text -/

theorem parseFlat_name_iff {defined : String → Bool} (hnames : ArrayNamed defined) {name : String}
    (h : ReadName defined name) {taken : List Expr} (hletters : Lettered taken) :
    parseFlat defined taken (normalChars name.toList) = named name ↔
      normalize name = name ∧ ∀ index ∈ Groups.number? name.toList, taken.length ≤ index := by
  have htrim : trim (normalChars name.toList) = normalChars name.toList :=
    trim_of_trimmed (Spelling.trimmed_normalChars _)
  have hsame : normalize name = name ↔ normalChars name.toList = name.toList := by
    rw [← String.toList_inj, Spelling.toList_normalize]
  rw [← Groups.find?_eq_none_iff]
  by_cases hdefined : defined (normalize name) = true
  · have hmark : openMark ∉ (normalize name).toList :=
      Parser.notMem_of_isPlainWord (hnames.plain _ hdefined) (by decide)
    rw [parseFlat, htrim, Parser.parseTrimmed_of_defined hdefined]
    constructor
    · rintro heq
      have hname : normalize name = name := named.inj heq
      rw [hname] at hmark
      exact ⟨hname, Groups.find?_eq_none hmark taken⟩
    · rintro ⟨hname, _⟩
      exact congrArg named hname
  · rw [Bool.not_eq_true] at hdefined
    cases hfind : Groups.find? taken (normalChars name.toList) with
    | some group =>
        have hread : parseFlat defined taken (normalChars name.toList) = group := by
          rw [parseFlat, htrim]
          exact Parser.parseTrimmed_of_find? hdefined hfind
        constructor
        · -- the group would be a name with a letter, and a placeholder has none
          intro heq
          rw [hread] at heq
          obtain ⟨c, hc, hletter⟩ := hletters name (heq ▸ Groups.mem_of_find? hfind)
          have hblank : isBlank c = false := isBlank_eq_false_of_isPlain (by
            simp [isPlain, Char.isAlphanum, hletter])
          have hmem : c ∈ normalChars name.toList := by
            rwa [normalChars, Spelling.spellOut_of_signFree h.signFree, Spelling.mem_weigh hblank]
          rw [Groups.find?_eq_none_of_mem hmem hletter] at hfind
          cases hfind
        · rintro ⟨hname, hnone⟩
          rw [hsame] at hname
          rw [hname, hnone] at hfind
          cases hfind
    | none =>
        rw [Parser.parseFlat_of_split? (by rwa [htrim]) (by rwa [htrim]), htrim]
        constructor
        · intro heq
          cases hsplit : Parser.split? (normalChars name.toList) with
          | some split =>
              rw [hsplit] at heq
              cases split <;> cases heq
          | none =>
              rw [hsplit] at heq
              have hname : normalize name = name := named.inj heq
              refine ⟨hname, ?_⟩
              rwa [hsame.mp hname] at hfind
        · rintro ⟨hname, _⟩
          have hsplit : Parser.split? (normalChars name.toList) = none := by
            rw [hsame.mp hname]
            apply h.whole.resolve_left
            rw [← hname, hdefined]
            simp
          rw [hsplit]
          exact congrArg named hname

theorem beforeFinal?_takenGroup (index : Nat) :
    Parser.beforeFinal? arrayWord (trim (takenGroup index)) = none := by
  rw [Option.eq_none_iff_forall_ne_some]
  intro before hbefore
  obtain ⟨heq, _⟩ := (Parser.beforeFinal?_eq_some_iff _ _ _).mp hbefore
  have hy : 'y' ∈ trim (takenGroup index) := by simp [heq]
  exact letter_notMem_takenGroup (by decide) index ((trim_sublist _).subset hy)

/-- Nothing but an array type and the name `array` prints an `array` at its end. -/
theorem beforeFinal?_flat {defined : String → Bool} (hnames : ArrayNamed defined) {tree : Expr}
    (h : ReadNames defined tree) {start taken : Nat} (hlegible : tree.Legible start taken)
    (hname : tree ≠ named "array") (harray : tree.isArrayOf = false) :
    Parser.beforeFinal? arrayWord (trim (tree.flat start)) = none := by
  induction tree generalizing start taken with
  | named name =>
      obtain ⟨hnormal, _⟩ := hlegible
      have hread := Parser.readNames_named.mp h
      have hflat : trim ((named name).flat start) = name.toList := by
        rw [flat, ← Spelling.toList_normalize, hnormal]
        exact trim_of_trimmed hread.trimmed
      rw [hflat]
      rcases hread.whole with hdefined | hsplit
      · have hplain := hnames.plain name hdefined
        rw [isPlainWord, Bool.and_eq_true] at hplain
        rw [Option.eq_none_iff_forall_ne_some]
        intro before hbefore
        obtain ⟨heq, hleft⟩ := (Parser.beforeFinal?_eq_some_iff _ _ _).mp hbefore
        have hwhole : name.toList = before ++ arrayWord ++ [] := by rw [heq, List.append_nil]
        have hword := Parser.eq_of_boundaries (fun c hc =>
          isWord_of_isPlain (List.all_eq_true.mp hplain.2 c hc)) hwhole hleft rfl
        apply hname
        rw [← String.ofList_toList (s := name), hword]
      · exact (Parser.of_split?_eq_none hread.line hsplit).2.2.1
  | or _ _ _ _ => exact beforeFinal?_takenGroup _
  | and _ _ _ _ => exact beforeFinal?_takenGroup _
  | not inner ih =>
      rw [flat, Parser.beforeFinal?_between_not]
      split
      · exact beforeFinal?_takenGroup _
      · next hinner =>
          rw [Legible, if_neg hinner] at hlegible
          rw [Bool.not_eq_true] at hinner
          exact ih h hlegible.2.2 hlegible.1 hinner
  | arrayOf _ _ => cases harray

theorem trim_flat_eq_nil_iff {defined : String → Bool} {tree : Expr} (h : ReadNames defined tree)
    (start : Nat) : trim (tree.flat start) = [] ↔ tree = named "" := by
  have hne {text : List Char} (hletter : ∃ c ∈ text, isBlank c = false) : trim text ≠ [] := by
    obtain ⟨c, hc, hblank⟩ := hletter
    intro hnil
    rw [isBlank_of_trim_eq_nil hnil c hc] at hblank
    cases hblank
  have hgroup (index : Nat) : trim (takenGroup index) ≠ [] := by
    apply hne
    exact ⟨openMark, by simp [takenGroup, placeholder], by decide⟩
  have hbetween (operator : Operator) (before after : List Char) :
      trim (between before operator.keyword after) ≠ [] := by
    obtain ⟨c, hc, hletter⟩ := letter_mem_between operator before after
    apply hne
    exact ⟨c, hc, isBlank_eq_false_of_isPlain (by simp [isPlain, Char.isAlphanum, hletter])⟩
  cases tree with
  | named name =>
      have hname := Parser.readNames_named.mp h
      rw [flat, normalChars, Spelling.spellOut_of_signFree hname.signFree, named.injEq]
      constructor
      · intro hnil
        have hinked : inked name.toList = [] := by
          rw [← Spelling.inked_weigh, ← inked_trim, hnil]
          rfl
        rw [← String.toList_inj]
        cases hchars : name.toList with
        | nil => rfl
        | cons c rest =>
            have hc := hname.trimmed.1 c (by rw [hchars]; rfl)
            rw [hchars, inked_cons_of_not_isBlank hc] at hinked
            cases hinked
      · rintro rfl
        rfl
  | or _ _ => simpa [flat] using hgroup _
  | and _ _ => simpa [flat] using hgroup _
  | not _ => exact iff_of_false (hbetween .not _ _) (by simp)
  | arrayOf _ => exact iff_of_false (hbetween .array _ _) (by simp)

theorem Lettered.of_isPrefix {taken all : List Expr} (h : Lettered all) (hall : taken <+: all) :
    Lettered taken :=
  fun name hname => h name (hall.subset hname)

/-- What is left of a group is read as the group. -/
theorem parseFlat_takenGroup {defined : String → Bool} (hnames : ArrayNamed defined)
    {before all : List Expr} {group : Expr} (hall : before ++ [group] <+: all) :
    parseFlat defined all (takenGroup before.length) = group := by
  have htrim : trim (takenGroup before.length) = placeholder before.length := by
    rw [takenGroup, List.singleton_append, trim_cons_of_isBlank (by decide),
      trim_concat_of_isBlank (by decide), trim_of_trimmed (Groups.trimmed_placeholder _)]
  have hreads := (Parser.Reads.placeholder hnames.plain before group).reads all hall
  rw [← hreads, parseFlat, parseFlat, htrim, trim_of_trimmed (Groups.trimmed_placeholder _)]

/-- A flat text is read as its tree if and only if the tree is legible. -/
theorem parseFlat_flat_iff {defined : String → Bool} (hnames : ArrayNamed defined) {tree : Expr}
    (h : ReadNames defined tree) {taken all : List Expr}
    (hall : tree.takenOut defined taken <+: all) (hletters : Lettered all) :
    parseFlat defined all (tree.flat taken.length) = tree ↔
      tree.Legible taken.length all.length := by
  induction tree generalizing taken all with
  | named name => exact parseFlat_name_iff hnames (Parser.readNames_named.mp h) hletters
  | or left right ihl ihr =>
      have hgroup := parseFlat_takenGroup hnames hall
      have hmiddle := hletters.of_isPrefix ((List.prefix_append _ _).trans hall)
      have hleft := ihl h.or.1 (takenOut_isPrefix defined right _) hmiddle
      have hright := ihr h.or.2 List.prefix_rfl hmiddle
      simp only [length_takenOut] at hgroup hleft hright
      rw [flat, Legible, hgroup, Parser.parseFlat_between_or_iff hnames _
        (lineFeed_notMem_flat left _) (lineFeed_notMem_flat right _)
        (free_flat hnames h.or.1 (Or.inl rfl) _) (free_flat hnames h.or.2 (Or.inl rfl) _),
        hleft, hright, (wide_flat h.or.1 _).1, (wide_flat h.or.2 _).2]
  | and left right ihl ihr =>
      have hgroup := parseFlat_takenGroup hnames hall
      have hmiddle := hletters.of_isPrefix ((List.prefix_append _ _).trans hall)
      have hleft := ihl h.and.1 (takenOut_isPrefix defined right _) hmiddle
      have hright := ihr h.and.2 List.prefix_rfl hmiddle
      simp only [length_takenOut] at hgroup hleft hright
      rw [flat, Legible, hgroup, Parser.parseFlat_between_and_iff hnames _
        (lineFeed_notMem_flat left _) (lineFeed_notMem_flat right _)
        (free_flat hnames h.and.1 (Or.inl rfl) _) (free_flat hnames h.and.2 (Or.inl rfl) _)
        (free_flat hnames h.and.1 (Or.inr rfl) _) (free_flat hnames h.and.2 (Or.inr rfl) _),
        hleft, hright, (wide_flat h.and.1 _).1, (wide_flat h.and.2 _).2]
  | not inner ih =>
      rw [flat, Legible]
      rw [takenOut] at hall
      split
      · next harray =>
          rw [if_pos harray] at hall
          have hgroup := parseFlat_takenGroup hnames hall
          have hmiddle := hletters.of_isPrefix ((List.prefix_append _ _).trans hall)
          have hinner := ih h.not List.prefix_rfl hmiddle
          simp only [length_takenOut] at hgroup hinner
          rw [Parser.parseFlat_between_not_iff hnames all (lineFeed_notMem_takenGroup _)
            (free_takenGroup .or _) (free_takenGroup .and _), hgroup, hinner]
          have hwide : startsWide (takenGroup (taken.length + inner.groups)) = false :=
            show isWide ' ' = false by decide
          simp only [hwide, beforeFinal?_takenGroup, true_and]
      · next harray =>
          rw [if_neg harray] at hall
          rw [Bool.not_eq_true] at harray
          rw [Parser.parseFlat_between_not_iff hnames all (lineFeed_notMem_flat inner _)
            (free_flat hnames h.not (Or.inl rfl) _) (free_flat hnames h.not (Or.inr rfl) _),
            ih h.not hall hletters, (wide_flat h.not _).2]
          constructor
          · rintro ⟨hwide, hnone, hlegible⟩
            refine ⟨?_, hwide, hlegible⟩
            rintro rfl
            have hsome : Parser.beforeFinal? arrayWord
                (trim ((named "array").flat taken.length)) = some [] := rfl
            rw [hsome] at hnone
            cases hnone
          · rintro ⟨hname, hwide, hlegible⟩
            exact ⟨hwide, beforeFinal?_flat hnames h.not hlegible hname harray, hlegible⟩
  | arrayOf inner ih =>
      rw [flat, Legible,
        Parser.parseFlat_between_array_iff hnames all (lineFeed_notMem_flat inner _)
          (free_flat hnames h.arrayOf (Or.inl rfl) _) (free_flat hnames h.arrayOf (Or.inr rfl) _),
        ih h hall hletters, Ne, trim_flat_eq_nil_iff h.arrayOf, (wide_flat h.arrayOf _).1]

end Expr

end Switchboard
