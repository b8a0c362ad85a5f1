import Switchboard.Proofs.FlatText
import Switchboard.Proofs.Registry.Meaning
import Switchboard.Proofs.Registry.Precedence

/-!
Phrases are read as the trees they spell. The groups of a phrase are taken out from the
left, and the flat text that is left reads as the tree of the phrase at its level. The
text that a tree prints is a phrase for it, so it is read as the same tree again.
-/

namespace Switchboard

variable {σ : Type}

open Text
open Switchboard.Groups (Clears)
open Switchboard.Spelling (Apart)
open Switchboard.Parser (IsOperandWord Reads parseFlat isBoundary_some)

namespace Phrase

variable {signs : Bool} {level : Level} {tree : Expr} {text : List Char}

/-- The only word characters of a phrase are plain ones. -/
theorem isPlain_of_isWord (h : Phrase signs level tree text) :
    ∀ c ∈ text, isWord c = true → isPlain c = true := by
  have hwritten {operator : Operator} {word : List Char} (hop : operator.Written signs word) :
      ∀ c ∈ word, isWord c = true → isPlain c = true := by
    have hkeyword : ∀ c ∈ operator.keyword, isPlain c = true :=
      List.all_eq_true.mp (by cases operator <;> rfl)
    have hsign : ∀ c ∈ operator.sign, (!isWord c) = true :=
      List.all_eq_true.mp (by cases operator <;> rfl)
    rcases hop with rfl | ⟨_, rfl⟩
    · exact fun c hc _ => hkeyword c hc
    · intro c hc hword
      have hfalse := hsign c hc
      rw [hword] at hfalse
      cases hfalse
  induction h with
  | word h =>
      have hplain := h.1
      rw [isPlainWord, Bool.and_eq_true] at hplain
      exact fun c hc _ => List.all_eq_true.mp hplain.2 c hc
  | group _ ih =>
      simp only [List.forall_mem_append, List.forall_mem_singleton]
      exact ⟨by decide, ih, by decide⟩
  | not hop _ _ ih =>
      rw [List.forall_mem_append]
      exact ⟨hwritten hop, ih⟩
  | array hop _ _ ih =>
      rw [List.forall_mem_append]
      exact ⟨ih, hwritten hop⟩
  | and hop _ _ _ _ ihl ihr | or hop _ _ _ _ ihl ihr =>
      simp only [List.forall_mem_append]
      exact ⟨ihl, hwritten hop, ihr⟩
  | weaken _ _ ih => exact ih
  | blankBefore hc _ ih =>
      rw [List.forall_mem_cons]
      exact ⟨by simp [isWord_eq_false_of_isBlank hc], ih⟩
  | blankAfter hc _ ih =>
      rw [List.forall_mem_append, List.forall_mem_singleton]
      exact ⟨ih, by simp [isWord_eq_false_of_isBlank hc]⟩

/-- A phrase before a keyword ends at a boundary. -/
theorem isBoundary_getLast? (h : Phrase signs level tree text) {operator : Operator}
    (hapart : Apart text operator.keyword) : isBoundary text.getLast? = true := by
  obtain ⟨k, hk, hplain⟩ : ∃ k, operator.keyword.head? = some k ∧ isPlain k = true := by
    cases operator <;> exact ⟨_, rfl, by decide⟩
  cases hlast : text.getLast? with
  | none => rfl
  | some c =>
      rw [isBoundary_some, Bool.not_eq_true', Bool.eq_false_iff]
      intro hword
      have hc := h.isPlain_of_isWord c (List.mem_of_getLast? hlast) hword
      rcases hapart c hlast k hk with hfalse | hfalse
      · rw [hc] at hfalse
        cases hfalse
      · rw [hplain] at hfalse
        cases hfalse

/-- A phrase behind a keyword starts at a boundary. -/
theorem isBoundary_head? (h : Phrase signs level tree text) {operator : Operator}
    (hapart : Apart operator.keyword text) : isBoundary text.head? = true := by
  obtain ⟨k, hk, hplain⟩ : ∃ k, operator.keyword.getLast? = some k ∧ isPlain k = true := by
    cases operator <;> exact ⟨_, rfl, by decide⟩
  cases hhead : text.head? with
  | none => rfl
  | some c =>
      rw [isBoundary_some, Bool.not_eq_true', Bool.eq_false_iff]
      intro hword
      have hc := h.isPlain_of_isWord c (List.mem_of_head? hhead) hword
      rcases hapart k hk c hhead with hfalse | hfalse
      · rw [hplain] at hfalse
        cases hfalse
      · rw [hc] at hfalse
        cases hfalse

end Phrase

/-- A text whose groups have been taken out, and which then reads as a tree. -/
structure Flattened (defined : String → Bool) (groups : List Expr) (level : Level) (tree : Expr)
    (text : List Char) (groups' : List Expr) (flat : List Char) : Prop where
  more : groups <+: groups'
  clears : Clears (parseFlat defined) groups text groups' flat
  reads : Reads defined groups' level tree flat
  openFree : '(' ∉ flat
  closeFree : ')' ∉ flat
  head : isBoundary text.head? = true → isBoundary flat.head? = true
  last : isBoundary text.getLast? = true → isBoundary flat.getLast? = true

theorem Flattened.ne_nil {defined : String → Bool} {groups groups' : List Expr} {level : Level}
    {tree : Expr} {text flat : List Char}
    (h : Flattened defined groups level tree text groups' flat) : flat ≠ [] := by
  rintro rfl
  exact h.reads.nonblank rfl

namespace Flattened

variable {defined : String → Bool} {groups groups' groups'' : List Expr} {level : Level}
  {tree left right : Expr} {text flat before after before' after' : List Char}

theorem group (hplain : ∀ name, defined name = true → isPlainWord name = true)
    (h : Flattened defined groups .or tree text groups' flat) :
    Flattened defined groups .atom tree (['('] ++ (text ++ [')'])) (groups' ++ [tree])
      ([' '] ++ (Groups.placeholder groups'.length ++ [' '])) := by
  have hclears := h.clears.group h.openFree h.closeFree
  have htree : parseFlat defined groups' (trim flat) = tree := by
    rw [← h.reads.reads groups' List.prefix_rfl, parseFlat, parseFlat, trim_trim]
  rw [htree] at hclears
  have hparens : ∀ c ∈ [' '] ++ (Groups.placeholder groups'.length ++ [' ']), c ≠ '(' ∧ c ≠ ')' := by
    simp only [List.forall_mem_append, List.forall_mem_singleton]
    refine ⟨by decide, fun c hc => ?_, by decide⟩
    rcases Groups.of_mem_placeholder hc with rfl | rfl | hdigit
    · decide
    · decide
    · refine ⟨?_, ?_⟩ <;> rintro rfl <;> exact absurd hdigit (by decide)
  refine {
    more := h.more.trans (List.prefix_append _ _)
    clears := hclears
    reads := (Reads.placeholder hplain groups' tree).congr ?_ ?_
    openFree := fun hc => (hparens _ hc).1 rfl
    closeFree := fun hc => (hparens _ hc).2 rfl
    head := fun _ => rfl
    last := fun _ => ?_ }
  · rw [List.singleton_append, trim_cons_of_isBlank (by decide),
      trim_concat_of_isBlank (by decide)]
  · simp [Groups.lineFeed_notMem_placeholder]
  · rw [← List.append_assoc, List.getLast?_append]
    rfl

theorem blankBefore (h : Flattened defined groups level tree text groups' flat) {c : Char}
    (hc : isBlank c = true) (hline : c ≠ '\n') (hne : text ≠ []) :
    Flattened defined groups level tree (c :: text) groups' (c :: flat) := by
  have hparens : c ≠ '(' ∧ c ≠ ')' := by
    refine ⟨?_, ?_⟩ <;> rintro rfl <;> exact absurd hc (by decide)
  refine {
    more := h.more
    clears := (Clears.refl groups [c]).append (by simp [Ne.symm hparens.2]) h.clears
    reads := h.reads.congr (trim_cons_of_isBlank hc flat) (by simp [Ne.symm hline, h.reads.line])
    openFree := by simp [Ne.symm hparens.1, h.openFree]
    closeFree := by simp [Ne.symm hparens.2, h.closeFree]
    head := id
    last := ?_ }
  rw [List.getLast?_cons_of_ne_nil hne, List.getLast?_cons_of_ne_nil h.ne_nil]
  exact h.last

theorem blankAfter (h : Flattened defined groups level tree text groups' flat) {c : Char}
    (hc : isBlank c = true) (hline : c ≠ '\n') (hne : text ≠ []) :
    Flattened defined groups level tree (text ++ [c]) groups' (flat ++ [c]) := by
  have hparens : c ≠ '(' ∧ c ≠ ')' := by
    refine ⟨?_, ?_⟩ <;> rintro rfl <;> exact absurd hc (by decide)
  refine {
    more := h.more
    clears := h.clears.append h.closeFree (.refl groups' [c])
    reads := h.reads.congr (trim_concat_of_isBlank hc flat) (by simp [Ne.symm hline, h.reads.line])
    openFree := by simp [Ne.symm hparens.1, h.openFree]
    closeFree := by simp [Ne.symm hparens.2, h.closeFree]
    head := ?_
    last := fun _ => ?_ }
  · rw [List.head?_append_of_ne_nil _ hne, List.head?_append_of_ne_nil _ h.ne_nil]
    exact h.head
  · rw [List.getLast?_concat, isBoundary_some, isWord_eq_false_of_isBlank hc]
    rfl

theorem keyword_append (h : Flattened defined groups level tree text groups' flat)
    (operator : Operator) {high : Level} {whole : Expr} (hne : text ≠ [])
    (hreads : Reads defined groups' high whole (operator.keyword ++ flat)) :
    Flattened defined groups high whole (operator.keyword ++ text) groups'
      (operator.keyword ++ flat) where
  more := h.more
  clears := (Clears.refl groups _).append (Parser.paren_notMem_keyword operator).2 h.clears
  reads := hreads
  openFree := by simp [Parser.paren_notMem_keyword, h.openFree]
  closeFree := by simp [Parser.paren_notMem_keyword, h.closeFree]
  head := by
    have hkeyword := Parser.keyword_ne_nil operator
    rw [List.head?_append_of_ne_nil _ hkeyword, List.head?_append_of_ne_nil _ hkeyword]
    exact id
  last := by
    rw [List.getLast?_append_of_ne_nil _ hne, List.getLast?_append_of_ne_nil _ h.ne_nil]
    exact h.last

theorem append_keyword (h : Flattened defined groups level tree text groups' flat)
    (operator : Operator) {high : Level} {whole : Expr} (hne : text ≠ [])
    (hreads : Reads defined groups' high whole (flat ++ operator.keyword)) :
    Flattened defined groups high whole (text ++ operator.keyword) groups'
      (flat ++ operator.keyword) where
  more := h.more
  clears := h.clears.append h.closeFree (.refl groups' _)
  reads := hreads
  openFree := by simp [Parser.paren_notMem_keyword, h.openFree]
  closeFree := by simp [Parser.paren_notMem_keyword, h.closeFree]
  head := by
    rw [List.head?_append_of_ne_nil _ hne, List.head?_append_of_ne_nil _ h.ne_nil]
    exact h.head
  last := by
    have hkeyword := Parser.keyword_ne_nil operator
    rw [List.getLast?_append_of_ne_nil _ hkeyword, List.getLast?_append_of_ne_nil _ hkeyword]
    exact id

/-- The groups around a keyword are taken out from left to right. -/
theorem join {levelLeft levelRight high : Level} {whole : Expr}
    (hleft : Flattened defined groups levelLeft left before groups' before')
    (operator : Operator)
    (hright : Flattened defined groups' levelRight right after groups'' after')
    (hbefore : before ≠ []) (hafter : after ≠ [])
    (hreads : Reads defined groups'' high whole (before' ++ (operator.keyword ++ after'))) :
    Flattened defined groups high whole (before ++ (operator.keyword ++ after)) groups''
      (before' ++ (operator.keyword ++ after')) where
  more := hleft.more.trans hright.more
  clears := hleft.clears.append hleft.closeFree
    ((Clears.refl groups' _).append (Parser.paren_notMem_keyword operator).2 hright.clears)
  reads := hreads
  openFree := by simp [Parser.paren_notMem_keyword, hleft.openFree, hright.openFree]
  closeFree := by simp [Parser.paren_notMem_keyword, hleft.closeFree, hright.closeFree]
  head := by
    rw [List.head?_append_of_ne_nil _ hbefore, List.head?_append_of_ne_nil _ hleft.ne_nil]
    exact hleft.head
  last := by
    have hkeyword := Parser.keyword_ne_nil operator
    rw [← List.append_assoc, ← List.append_assoc, List.getLast?_append_of_ne_nil _ hafter,
      List.getLast?_append_of_ne_nil _ hright.ne_nil]
    exact hright.last

end Flattened

/-- Every phrase of one line without signs flattens to a text that reads as its tree. -/
theorem Phrase.exists_flattened {defined : String → Bool}
    (hplain : ∀ name, defined name = true → isPlainWord name = true) {level : Level}
    {tree : Expr} {text : List Char} (h : Phrase false level tree text) (hline : '\n' ∉ text)
    (groups : List Expr) :
    ∃ groups' flat, Flattened defined groups level tree text groups' flat := by
  have hkeyword {operator : Operator} {word : List Char} (hop : operator.Written false word) :
      word = operator.keyword := hop.resolve_right (by simp)
  induction h generalizing groups with
  | @word name h =>
      exact ⟨groups, name.toList, {
        more := List.prefix_rfl
        clears := .refl groups _
        reads := .word h defined groups
        openFree := Parser.notMem_of_isPlainWord h.1 (by decide)
        closeFree := Parser.notMem_of_isPlainWord h.1 (by decide)
        head := id
        last := id }⟩
  | group _ ih =>
      obtain ⟨groups', flat, hflat⟩ := ih (fun hmem => hline (by simp [hmem])) groups
      exact ⟨_, _, hflat.group hplain⟩
  | not hop h hapart ih =>
      obtain rfl := hkeyword hop
      obtain ⟨groups', flat, hflat⟩ := ih (fun hmem => hline (by simp [hmem])) groups
      have hmeet := hflat.head (h.isBoundary_head? hapart)
      exact ⟨_, _, hflat.keyword_append .not h.ne_nil (hflat.reads.not hplain hmeet)⟩
  | array hop h hapart ih =>
      obtain rfl := hkeyword hop
      obtain ⟨groups', flat, hflat⟩ := ih (fun hmem => hline (by simp [hmem])) groups
      have hmeet := hflat.last (h.isBoundary_getLast? hapart)
      exact ⟨_, _, hflat.append_keyword .array h.ne_nil (hflat.reads.array hplain hmeet)⟩
  | and hop hleft hright hbefore hafter ihl ihr =>
      obtain rfl := hkeyword hop
      obtain ⟨groups', before', hflat⟩ := ihl (fun hmem => hline (by simp [hmem])) groups
      obtain ⟨groups'', after', hflat'⟩ := ihr (fun hmem => hline (by simp [hmem])) groups'
      have hmeet := hflat.last (hleft.isBoundary_getLast? hbefore)
      have hmeet' := hflat'.head (hright.isBoundary_head? hafter)
      have hreads := (hflat.reads.mono hflat'.more).and hplain hflat'.reads hmeet hmeet'
      exact ⟨_, _, hflat.join .and hflat' hleft.ne_nil hright.ne_nil hreads⟩
  | or hop hleft hright hbefore hafter ihl ihr =>
      obtain rfl := hkeyword hop
      obtain ⟨groups', before', hflat⟩ := ihl (fun hmem => hline (by simp [hmem])) groups
      obtain ⟨groups'', after', hflat'⟩ := ihr (fun hmem => hline (by simp [hmem])) groups'
      have hmeet := hflat.last (hleft.isBoundary_getLast? hbefore)
      have hmeet' := hflat'.head (hright.isBoundary_head? hafter)
      have hreads := (hflat.reads.mono hflat'.more).or hplain hflat'.reads hmeet hmeet'
      exact ⟨_, _, hflat.join .or hflat' hleft.ne_nil hright.ne_nil hreads⟩
  | weaken _ hle ih =>
      obtain ⟨groups', flat, hflat⟩ := ih (fun hmem => hline (by simp [hmem])) groups
      exact ⟨groups', flat, { hflat with reads := hflat.reads.weaken hle }⟩
  | blankBefore hc h ih =>
      obtain ⟨groups', flat, hflat⟩ := ih (fun hmem => hline (by simp [hmem])) groups
      exact ⟨groups', _, hflat.blankBefore hc (fun heq => hline (by simp [heq])) h.ne_nil⟩
  | blankAfter hc h ih =>
      obtain ⟨groups', flat, hflat⟩ := ih (fun hmem => hline (by simp [hmem])) groups
      exact ⟨groups', _, hflat.blankAfter hc (fun heq => hline (by simp [heq])) h.ne_nil⟩

/-- A phrase of one line without signs is read as its tree. -/
theorem Phrase.parseChars_eq {defined : String → Bool}
    (hplain : ∀ name, defined name = true → isPlainWord name = true) {tree : Expr}
    {text : List Char} (h : Phrase false .or tree text) (hline : '\n' ∉ text) :
    Parser.parseChars defined text = tree := by
  obtain ⟨groups, flat, hflat⟩ := h.exists_flattened hplain hline []
  have hclears := hflat.clears [] [] (by simp)
  have hgroupless : Groups.Groupless (trim flat) :=
    Groups.groupless_of_notMem fun hc => hflat.openFree ((trim_sublist flat).subset hc)
  simp only [List.nil_append, List.append_nil] at hclears
  rw [Parser.parseChars, hclears, Groups.takeOut_of_groupless _ _ hgroupless,
    ← hflat.reads.reads groups List.prefix_rfl]
  simp only [parseFlat, trim_trim]

/-- Any phrase means its tree. -/
theorem Phrase.meaning_eq {defined : String → Bool}
    (hplain : ∀ name, defined name = true → isPlainWord name = true) {signs : Bool} {tree : Expr}
    {text : String} (h : Phrase signs .or tree text.toList) :
    Cache.meaning defined text = tree := by
  have hparse : Parser.parse defined (Spelling.normalize text) = tree := by
    rw [Parser.parse, Spelling.toList_normalize]
    exact h.normalChars.parseChars_eq hplain (Spelling.lineFeed_notMem_weigh _)
  rw [Cache.meaning]
  split
  · next hdefined =>
      have hword := hplain text hdefined
      rw [← hparse, Spelling.normalize_of_isPlainWord hword, Parser.parse_of_defined hdefined]
      · exact Groups.groupless_of_notMem (Parser.notMem_of_isPlainWord hword (by decide))
      · exact Parser.trimmed_of_isPlainWord hword
  · exact hparse

/-- The level at which a tree prints itself. -/
def Expr.level : Expr → Level
  | .named _ | .or _ _ | .and _ _ => .atom
  | .not _ => .not
  | .arrayOf _ => .array

theorem Expr.rank_level_le (tree : Expr) : tree.level.rank ≤ Level.array.rank := by
  cases tree <;> simp [Expr.level, Level.rank]

theorem Expr.rank_level_le_of_not_isArrayOf {tree : Expr} (h : ¬ tree.isArrayOf = true) :
    tree.level.rank ≤ Level.not.rank := by
  cases tree with
  | arrayOf _ => exact absurd rfl h
  | _ => simp [Expr.level, Level.rank]

/-- A keyword with a space on each side runs into neither neighbour. -/
theorem Phrase.apart_spaced (operator : Operator) (before after : List Char) :
    Apart (before ++ [' ']) operator.keyword ∧ Apart operator.keyword (' ' :: after) := by
  refine ⟨?_, ?_⟩
  · intro x hx y _
    rw [List.getLast?_concat] at hx
    cases hx
    exact Or.inl (by decide)
  · rintro x _ y ⟨⟩
    exact Or.inr (by decide)

/-- What a tree prints is a phrase for it. -/
theorem Expr.phrase_render {tree : Expr} (h : ∀ name ∈ tree.names, IsOperandWord name)
    (signs : Bool) : Phrase signs tree.level tree tree.render.toList := by
  have hspace : isBlank ' ' = true := by decide
  induction tree with
  | named name => exact .word (h name (by simp [Expr.names]))
  | or left right ihl ihr =>
      simp only [Expr.names, List.mem_append] at h
      have hleft := (ihl fun name hname => h name (Or.inl hname)).blankAfter hspace
      have hright := (ihr fun name hname => h name (Or.inr hname)).blankBefore hspace
      obtain ⟨hbefore, hafter⟩ :=
        Phrase.apart_spaced .or left.render.toList right.render.toList
      have hwhole := Phrase.or (Operator.written_keyword signs .or)
        (hleft.weaken (left.rank_level_le.trans (by decide)))
        (hright.weaken (right.rank_level_le.trans (by decide))) hbefore hafter
      have htext : (Expr.or left right).render.toList = ['('] ++ ((left.render.toList ++ [' '] ++
          (Operator.or.keyword ++ ' ' :: right.render.toList)) ++ [')']) := by
        simp [Expr.render, Operator.keyword]
      rw [htext]
      exact hwhole.group
  | and left right ihl ihr =>
      simp only [Expr.names, List.mem_append] at h
      have hleft := (ihl fun name hname => h name (Or.inl hname)).blankAfter hspace
      have hright := (ihr fun name hname => h name (Or.inr hname)).blankBefore hspace
      obtain ⟨hbefore, hafter⟩ :=
        Phrase.apart_spaced .and left.render.toList right.render.toList
      have hwhole := Phrase.and (Operator.written_keyword signs .and)
        (hleft.weaken (left.rank_level_le.trans (by decide)))
        (hright.weaken (right.rank_level_le.trans (by decide))) hbefore hafter
      have htext : (Expr.and left right).render.toList = ['('] ++ ((left.render.toList ++ [' '] ++
          (Operator.and.keyword ++ ' ' :: right.render.toList)) ++ [')']) := by
        simp [Expr.render, Operator.keyword]
      rw [htext]
      exact (hwhole.weaken (by decide)).group
  | not inner ih =>
      have hinner := ih h
      obtain ⟨_, hafter⟩ := Phrase.apart_spaced .not [] inner.render.toList
      by_cases harray : inner.isArrayOf = true
      · -- `array` would end the operand of `not`, so the operand stands in a group
        have hgroup := (hinner.weaken (inner.rank_level_le.trans (by decide : _ ≤ Level.or.rank))).group
        obtain ⟨_, hafter⟩ :=
          Phrase.apart_spaced .not [] (['('] ++ (inner.render.toList ++ [')']))
        have htext : (Expr.not inner).render.toList = Operator.not.keyword ++
            ' ' :: (['('] ++ (inner.render.toList ++ [')'])) := by
          simp [Expr.render, harray, Operator.keyword]
        rw [htext]
        exact .not (Operator.written_keyword signs .not)
          ((hgroup.weaken (by decide)).blankBefore hspace) hafter
      · have htext : (Expr.not inner).render.toList =
            Operator.not.keyword ++ ' ' :: inner.render.toList := by
          simp [Expr.render, harray, Operator.keyword]
        rw [htext]
        exact .not (Operator.written_keyword signs .not)
          ((hinner.weaken (inner.rank_level_le_of_not_isArrayOf harray)).blankBefore hspace) hafter
  | arrayOf inner ih =>
      obtain ⟨hbefore, _⟩ := Phrase.apart_spaced .array inner.render.toList []
      have htext : (Expr.arrayOf inner).render.toList =
          inner.render.toList ++ [' '] ++ Operator.array.keyword := by
        simp [Expr.render, Operator.keyword]
      rw [htext]
      exact .array (Operator.written_keyword signs .array)
        (((ih h).weaken inner.rank_level_le).blankAfter hspace) hbefore

namespace Registry

/-- In a registry whose names are plain words, every text that spells a tree of operand
words is compiled to that tree, and what the tree prints is such a text. -/
theorem compile_phrase {options : Options} {state : σ} {registry : Registry σ}
    (hreach : ReachableFrom options state registry)
    (hnames : ∀ name, registry.contains name = true → isPlainWord name = true) (tree : Expr)
    (hwords : ∀ name ∈ tree.names, IsOperandWord name) :
    (∀ text : String, Phrase true .or tree text.toList →
      (registry.compile text).1.tree = tree) ∧
    Phrase true .or tree tree.render.toList ∧ (registry.compile tree.render).1.tree = tree := by
  have hgroupless : GrouplessNames registry := fun name hname =>
    Groups.groupless_of_notMem (Parser.notMem_of_isPlainWord (hnames name hname) (by decide))
  have hcompile (text : String) (hphrase : Phrase true .or tree text.toList) :
      (registry.compile text).1.tree = tree := by
    obtain ⟨defined, hearlier, htree⟩ := hreach.exists_earlier hgroupless text
    rw [htree]
    exact hphrase.meaning_eq fun name hname => hnames name (hearlier.contains name hname)
  have hrender : Phrase true .or tree tree.render.toList :=
    (Expr.phrase_render hwords true).weaken (tree.rank_level_le.trans (by decide))
  exact ⟨hcompile, hrender, hcompile tree.render hrender⟩

/-- A text with signs and a blank, in a new registry, and what its tree prints. -/
theorem compile_phrase_new :
    ((new .standard ()).compile "string||! (int[])").1.tree =
        .or (.named "string") (.not (.arrayOf (.named "int"))) ∧
      ((new .standard ()).compile "(string or not (int array))").1.tree =
        .or (.named "string") (.not (.arrayOf (.named "int"))) := by
  have hstart : ReachableFrom .standard () (new .standard ()) := .refl
  have hstring : Phrase true .atom (.named "string") "string".toList := .word (by decide)
  have hint : Phrase true .atom (.named "int") "int".toList := .word (by decide)
  have harray : Phrase true .array (.arrayOf (.named "int")) ("int".toList ++ ['[', ']']) :=
    .array (Or.inr ⟨rfl, rfl⟩) (hint.weaken (by decide)) (by decide)
  have hnot : Phrase true .not (.not (.arrayOf (.named "int")))
      (['!'] ++ ' ' :: (['('] ++ (("int".toList ++ ['[', ']']) ++ [')']))) :=
    .not (Or.inr ⟨rfl, rfl⟩) (((harray.weaken (by decide)).group.weaken (by decide)).blankBefore
      (by decide)) (by decide)
  have hor : Phrase true .or (.or (.named "string") (.not (.arrayOf (.named "int"))))
      "string||! (int[])".toList :=
    .or (Or.inr ⟨rfl, rfl⟩) (hstring.weaken (by decide)) (hnot.weaken (by decide)) (by decide)
      (by decide)
  obtain ⟨htexts, _, hrender⟩ := compile_phrase hstart
    (fun name hname => isPlainWord_of_contains_new hname)
    (.or (.named "string") (.not (.arrayOf (.named "int")))) (by decide)
  exact ⟨htexts _ hor, hrender⟩

end Registry

end Switchboard
