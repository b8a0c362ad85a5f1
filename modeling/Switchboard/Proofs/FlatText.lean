import Switchboard.Proofs.Grouping

/-!
How a flat text is read, built up as a phrase is. A flat text reads as a tree at a level
if it is parsed as that tree and no keyword of a weaker operator can be seen in it: no
`or` below the level of `or`, no `and` below that of `and`, and no `array` at its end
below that of `array`. Two flat texts around a keyword then read as the operator applied
to what they read as, because the keyword is the first one to be found.
-/

namespace Switchboard.Parser

open Text Groups

/-! Keywords between flat texts -/

theorem isWord_of_mem_keyword (operator : Operator) : ∀ c ∈ operator.keyword, isWord c = true :=
  List.all_eq_true.mp (by cases operator <;> rfl)

theorem keyword_ne_nil (operator : Operator) : operator.keyword ≠ [] := by
  cases operator <;> decide

theorem trimmed_keyword (operator : Operator) : Trimmed operator.keyword :=
  trimmed_of_all_isWord (isWord_of_mem_keyword operator)

theorem keyword_injective : Function.Injective Operator.keyword := by
  intro operator other h
  cases operator <;> cases other <;> first | rfl | cases h

theorem paren_notMem_keyword (operator : Operator) :
    '(' ∉ operator.keyword ∧ ')' ∉ operator.keyword := by
  cases operator <;> decide

theorem lineFeed_notMem_keyword (operator : Operator) : '\n' ∉ operator.keyword := by
  cases operator <;> decide

/-- Around a keyword, texts of one line make up one line. -/
theorem lineFeed_notMem_append (operator : Operator) {before after : List Char}
    (hbefore : '\n' ∉ before) (hafter : '\n' ∉ after) :
    '\n' ∉ before ++ (operator.keyword ++ after) := by
  simp [hbefore, lineFeed_notMem_keyword, hafter]

theorem trim_append_keyword (operator : Operator) (before after : List Char) :
    trim (before ++ (operator.keyword ++ after)) =
      trimStart before ++ operator.keyword ++ trimEnd after := by
  rw [← List.append_assoc]
  exact trim_append_append before after (keyword_ne_nil operator) (trimmed_keyword operator)

theorem isBoundary_of_blanks {blanks : List Char} (h : ∀ c ∈ blanks, isBlank c = true) :
    isBoundary blanks.getLast? = true ∧ isBoundary blanks.head? = true := by
  constructor
  · cases hlast : blanks.getLast? with
    | none => rfl
    | some c => exact isBoundary_of_isBlank (h c (List.mem_of_getLast? hlast))
  · cases hhead : blanks.head? with
    | none => rfl
    | some c => exact isBoundary_of_isBlank (h c (List.mem_of_head? hhead))

theorem isBoundary_getLast?_trimStart (text : List Char) :
    isBoundary (trimStart text).getLast? = isBoundary text.getLast? := by
  have hsplit : text.takeWhile isBlank ++ trimStart text = text :=
    List.takeWhile_append_dropWhile
  have hblank : ∀ c ∈ text.takeWhile isBlank, isBlank c = true :=
    List.all_eq_true.mp List.all_takeWhile
  cases hlast : (trimStart text).getLast? with
  | none =>
      rw [List.getLast?_eq_none_iff.mp hlast, List.append_nil] at hsplit
      rw [← hsplit, (isBoundary_of_blanks hblank).1]
      rfl
  | some c => rw [← hsplit, List.getLast?_append, hlast, Option.some_or]

theorem isBoundary_head?_trimEnd (text : List Char) :
    isBoundary (trimEnd text).head? = isBoundary text.head? := by
  have h := isBoundary_getLast?_trimStart text.reverse
  rwa [List.getLast?_reverse, ← List.head?_reverse, ← trimEnd_eq_reverse] at h

theorem free_of_blanks (operator : Operator) {blanks : List Char}
    (h : ∀ c ∈ blanks, isBlank c = true) : Free operator.keyword blanks := by
  obtain ⟨w, hw⟩ := List.exists_mem_of_ne_nil _ (keyword_ne_nil operator)
  apply free_of_notMem hw
  intro hblank
  have hword := isWord_of_mem_keyword operator w hw
  rw [isWord_eq_false_of_isBlank (h w hblank)] at hword
  cases hword

/-- Blanks around a text hide no keyword in it. -/
theorem Free.of_trim (operator : Operator) {text : List Char}
    (h : Free operator.keyword (trim text)) : Free operator.keyword text := by
  have hword := keyword_ne_nil operator
  have hall := isWord_of_mem_keyword operator
  obtain ⟨before, after, hbefore, hafter, heq⟩ := exists_blanks_trim text
  rw [heq, List.append_assoc]
  apply (free_of_blanks operator hbefore).append hword hall
  · exact h.append hword hall (free_of_blanks operator hafter)
      (Or.inr (isBoundary_of_blanks hafter).2)
  · exact Or.inl (isBoundary_of_blanks hbefore).1

/-- A word that is free in a text is free in it without its outer blanks. -/
theorem Free.to_trim {word text : List Char} (hword : word ≠ []) (h : Free word text) :
    Free word (trim text) := by
  obtain ⟨before, after, hbefore, hafter, heq⟩ := exists_blanks_trim text
  rw [free_iff hword] at h ⊢
  intro left right hright hleft
  have hfree := h (before ++ left) (right ++ after)
    (by rw [heq, hright]; simp only [List.append_assoc]) ?_
  · cases right with
    | nil =>
        rw [List.nil_append, (isBoundary_of_blanks hafter).2] at hfree
        cases hfree
    | cons c rest => exact hfree
  · cases hlast : left.getLast? with
    | none =>
        rw [List.getLast?_eq_none_iff.mp hlast, List.append_nil]
        exact (isBoundary_of_blanks hbefore).1
    | some c =>
        rw [List.getLast?_append, hlast, Option.some_or, ← hlast]
        exact hleft

/-- A keyword that is free on both sides of another one is free in the whole. -/
theorem Free.append_keyword (operator other : Operator) (hne : operator ≠ other)
    {before after : List Char} (hbefore : Free other.keyword (trim before))
    (hafter : Free other.keyword (trim after)) (hleft : isBoundary before.getLast? = true)
    (hright : isBoundary after.head? = true) :
    Free other.keyword (trimStart before ++ operator.keyword ++ trimEnd after) := by
  have hword := keyword_ne_nil other
  have hall := isWord_of_mem_keyword other
  have hbefore' : Free other.keyword (trimStart before) := by
    apply Free.of_trim
    rwa [trim_trimStart]
  have hafter' : Free other.keyword (trimEnd after) := by
    apply Free.of_trim
    rwa [trim_trimEnd]
  have hkeyword : Free other.keyword operator.keyword :=
    free_of_all_isWord hword (isWord_of_mem_keyword operator) (keyword_injective.ne hne)
  refine (hbefore'.append hword hall hkeyword ?_).append hword hall hafter' ?_
  · exact Or.inl (by rwa [isBoundary_getLast?_trimStart])
  · exact Or.inr (by rwa [isBoundary_head?_trimEnd])

/-- An `array` behind `not` and a text ends that text. -/
theorem beforeFinal?_not_append {flat : List Char} (hhead : ∀ c ∈ flat.head?, isPlain c = false) :
    beforeFinal? arrayWord (notWord ++ trimEnd flat) = none ↔
      beforeFinal? arrayWord (trim flat) = none := by
  constructor
  · intro h
    rw [Option.eq_none_iff_forall_ne_some] at h ⊢
    intro before hbefore
    obtain ⟨heq, hleft⟩ := (beforeFinal?_eq_some_iff _ _ _).mp hbefore
    obtain ⟨blanks, hblank, hend⟩ : ∃ blanks, (∀ c ∈ blanks, isBlank c = true) ∧
        blanks ++ (before ++ arrayWord) = trimEnd flat := by
      rw [← heq, trim_eq_trimStart_trimEnd]
      exact ⟨_, List.all_eq_true.mp List.all_takeWhile, List.takeWhile_append_dropWhile⟩
    refine h (notWord ++ (blanks ++ before)) ?_
    refine (beforeFinal?_eq_some_iff _ _ _).mpr ⟨by simp [← hend], ?_⟩
    cases hlast : (blanks ++ before).getLast? with
    | some c =>
        rw [List.getLast?_append, hlast, Option.some_or, ← hlast, List.getLast?_append]
        cases hlast' : before.getLast? with
        | none => exact (isBoundary_of_blanks hblank).1
        | some d => rwa [hlast'] at hleft
    | none =>
        -- the text would start with the plain characters of the word
        rw [List.getLast?_eq_none_iff, List.append_eq_nil_iff] at hlast
        rw [hlast.1, hlast.2] at hend
        obtain ⟨tail, htail⟩ := trimEnd_isPrefix flat
        have hplain := hhead 'a' (by rw [← htail, ← hend]; rfl)
        exact absurd hplain (by decide)
  · intro h
    rw [Option.eq_none_iff_forall_ne_some] at h ⊢
    intro before hbefore
    obtain ⟨heq, hleft⟩ := (beforeFinal?_eq_some_iff _ _ _).mp hbefore
    rcases List.append_eq_append_iff.mp heq with ⟨middle, rfl, hflat⟩ | ⟨middle, hnot, harray⟩
    · -- the same `array` ends the trimmed text
      have htrim := trim_append_keyword .array middle []
      change trim (middle ++ (arrayWord ++ [])) = trimStart middle ++ arrayWord ++ [] at htrim
      rw [List.append_nil, List.append_nil, ← hflat, trim_trimEnd] at htrim
      refine h (trimStart middle) ((beforeFinal?_eq_some_iff _ _ _).mpr ⟨htrim, ?_⟩)
      rw [isBoundary_getLast?_trimStart]
      cases hlast : middle.getLast? with
      | none => rfl
      | some c => rwa [List.getLast?_append, hlast, Option.some_or] at hleft
    · -- the word would start in `not`
      cases middle with
      | nil =>
          refine h [] ((beforeFinal?_eq_some_iff _ _ _).mpr ⟨?_, rfl⟩)
          rw [← trim_trimEnd, ← List.nil_append (trimEnd flat), ← harray]
          exact trim_of_trimmed (trimmed_keyword .array)
      | cons c rest =>
          have hc : c ∈ notWord := by simp [hnot]
          obtain ⟨rfl, _⟩ := List.cons.inj harray
          exact absurd hc (by decide)

/-! Texts that read as a tree -/

/-- A flat text of one line that is read as a tree, and in which no operator above the level
can be seen. -/
structure Reads (defined : String → Bool) (groups : List Expr) (level : Level) (tree : Expr)
    (flat : List Char) : Prop where
  line : '\n' ∉ flat
  reads : ∀ groups', groups <+: groups' → parseFlat defined groups' flat = tree
  nonblank : trim flat ≠ []
  orFree : level.rank < Level.or.rank → Free orWord (trim flat)
  andFree : level.rank < Level.and.rank → Free andWord (trim flat)
  arrayFree : level.rank < Level.array.rank → beforeFinal? arrayWord (trim flat) = none

/-- A text is read by its split if the split is at a keyword with something around it. -/
theorem parseFlat_of_split (operator : Operator) {defined : String → Bool}
    {flat before after : List Char} {split : Split}
    (hplain : ∀ name, defined name = true → isPlainWord name = true)
    (htrim : trim flat = before ++ operator.keyword ++ after)
    (hleft : isBoundary before.getLast? = true) (hright : isBoundary after.head? = true)
    (hne : before ++ after ≠ []) (hsplit : split? (trim flat) = some split)
    (groups : List Expr) :
    parseFlat defined groups flat = split.tree (parseFlat defined groups) := by
  have hundefined : defined (String.ofList (trim flat)) = false := by
    rw [Bool.eq_false_iff]
    intro hdefined
    have hword := hplain _ hdefined
    rw [isPlainWord, String.toList_ofList, Bool.and_eq_true] at hword
    have hall : ∀ c ∈ trim flat, isWord c = true := fun c hc =>
      isWord_of_isPlain (List.all_eq_true.mp hword.2 c hc)
    have heq := eq_of_boundaries hall htrim hleft hright
    rw [heq] at htrim
    have hlength := congrArg List.length htrim
    simp only [List.length_append] at hlength
    apply hne
    rw [List.append_eq_nil_iff, ← List.length_eq_zero_iff, ← List.length_eq_zero_iff]
    omega
  have hfind : find? groups (trim flat) = none := by
    obtain ⟨c, hc, hletter⟩ : ∃ c ∈ operator.keyword, c.isAlpha = true :=
      List.any_eq_true.mp (by cases operator <;> rfl)
    apply find?_eq_none_of_mem _ hletter
    rw [htrim]
    simp [hc]
  rw [parseFlat, parseTrimmed_of_split hundefined hfind hsplit]

namespace Reads

variable {defined : String → Bool} {groups : List Expr} {level : Level} {tree left right : Expr}
  {flat before after : List Char}

theorem mono (h : Reads defined groups level tree flat) {groups' : List Expr}
    (hgroups : groups <+: groups') : Reads defined groups' level tree flat :=
  { h with reads := fun groups'' hmore => h.reads groups'' (hgroups.trans hmore) }

theorem weaken (h : Reads defined groups level tree flat) {high : Level}
    (hle : level.rank ≤ high.rank) : Reads defined groups high tree flat :=
  { h with
    orFree := fun hlt => h.orFree (by omega)
    andFree := fun hlt => h.andFree (by omega)
    arrayFree := fun hlt => h.arrayFree (by omega) }

/-- How a text is read depends on the text between its outer blanks only. -/
theorem congr (h : Reads defined groups level tree flat) {flat' : List Char}
    (htrim : trim flat' = trim flat) (hline : '\n' ∉ flat') :
    Reads defined groups level tree flat' where
  line := hline
  reads := fun groups' hgroups => by rw [← h.reads groups' hgroups, parseFlat, parseFlat, htrim]
  nonblank := by rw [htrim]; exact h.nonblank
  orFree := by rw [htrim]; exact h.orFree
  andFree := by rw [htrim]; exact h.andFree
  arrayFree := by rw [htrim]; exact h.arrayFree

theorem word {name : String} (h : IsOperandWord name) (defined : String → Bool)
    (groups : List Expr) : Reads defined groups .atom (.named name) name.toList := by
  have htrim : trim name.toList = name.toList := trim_of_trimmed (trimmed_of_isPlainWord h.1)
  have hline : '\n' ∉ name.toList := notMem_of_isPlainWord h.1 (by decide)
  obtain ⟨hor, hand, harray, _⟩ := of_split?_eq_none hline (split?_of_isOperandWord h)
  exact {
    line := hline
    reads := fun groups' _ => by rw [parseFlat, htrim, parseTrimmed_of_isOperandWord h]
    nonblank := by
      rw [htrim]
      exact (Phrase.word h : Phrase false _ _ _).ne_nil
    orFree := fun _ => by rwa [htrim]
    andFree := fun _ => by rwa [htrim]
    arrayFree := fun _ => by rwa [htrim] }

/-- A placeholder reads as its group. -/
theorem placeholder (hplain : ∀ name, defined name = true → isPlainWord name = true)
    (groups : List Expr) (tree : Expr) :
    Reads defined (groups ++ [tree]) .atom tree (Groups.placeholder groups.length) := by
  have htrim : trim (Groups.placeholder groups.length) = Groups.placeholder groups.length :=
    trim_of_trimmed (trimmed_placeholder _)
  have hundefined : defined (String.ofList (Groups.placeholder groups.length)) = false := by
    rw [Bool.eq_false_iff]
    intro hdefined
    have hmark := notMem_of_isPlainWord (hplain _ hdefined) (c := openMark) (by decide)
    exact hmark (by simp [Groups.placeholder])
  have hletter {c : Char} (hc : c.isAlpha = true) : c ∉ Groups.placeholder groups.length := by
    intro hmem
    rcases of_mem_placeholder hmem with rfl | rfl | hdigit
    · exact absurd hc (by decide)
    · exact absurd hc (by decide)
    · rw [isDigit_eq_false_of_isAlpha hc] at hdigit
      cases hdigit
  exact {
    line := lineFeed_notMem_placeholder groups.length
    reads := fun groups' hgroups => by
      rw [parseFlat, htrim]
      apply parseTrimmed_of_find? hundefined
      rw [find?_placeholder]
      obtain ⟨more, rfl⟩ := hgroups
      simp
    nonblank := by
      rw [htrim]
      simp [Groups.placeholder]
    orFree := fun _ => by
      rw [htrim]
      exact free_of_notMem (c := 'o') (by decide) (hletter (by decide))
    andFree := fun _ => by
      rw [htrim]
      exact free_of_notMem (c := 'a') (by decide) (hletter (by decide))
    arrayFree := fun _ => by
      rw [htrim, Option.eq_none_iff_forall_ne_some]
      intro before hbefore
      obtain ⟨heq, _⟩ := (beforeFinal?_eq_some_iff _ _ _).mp hbefore
      have hmem : 'y' ∈ Groups.placeholder groups.length := by simp [heq]
      exact hletter (by decide) hmem }

theorem trimStart_ne_nil (h : Reads defined groups level tree flat) : trimStart flat ≠ [] := by
  intro hnil
  apply h.nonblank
  rw [trim, hnil]
  rfl

theorem trimEnd_ne_nil (h : Reads defined groups level tree flat) : trimEnd flat ≠ [] := by
  intro hnil
  apply h.nonblank
  rw [← trim_trimEnd, hnil]
  rfl

theorem reads_trimStart (h : Reads defined groups level tree flat) {groups' : List Expr}
    (hgroups : groups <+: groups') : parseFlat defined groups' (trimStart flat) = tree := by
  rw [← h.reads groups' hgroups, parseFlat, parseFlat, trim_trimStart]

theorem reads_trimEnd (h : Reads defined groups level tree flat) {groups' : List Expr}
    (hgroups : groups <+: groups') : parseFlat defined groups' (trimEnd flat) = tree := by
  rw [← h.reads groups' hgroups, parseFlat, parseFlat, trim_trimEnd]

theorem or (hplain : ∀ name, defined name = true → isPlainWord name = true)
    (hleft : Reads defined groups .and left before)
    (hright : Reads defined groups .or right after)
    (hbefore : isBoundary before.getLast? = true) (hafter : isBoundary after.head? = true) :
    Reads defined groups .or (.or left right) (before ++ (orWord ++ after)) := by
  have htrim : trim (before ++ (orWord ++ after)) = trimStart before ++ orWord ++ trimEnd after :=
    trim_append_keyword .or before after
  have hbefore' : isBoundary (trimStart before).getLast? = true := by
    rwa [isBoundary_getLast?_trimStart]
  have hafter' : isBoundary (trimEnd after).head? = true := by
    rwa [isBoundary_head?_trimEnd]
  have hfree : Free orWord (trimStart before) := by
    apply Free.of_trim .or
    rw [trim_trimStart]
    exact hleft.orFree (by decide)
  have hline : '\n' ∉ before ++ (orWord ++ after) :=
    lineFeed_notMem_append .or hleft.line hright.line
  have hsplit : split? (trim (before ++ (orWord ++ after))) =
      some (.or (trimStart before) (trimEnd after)) := by
    apply split?_of_or (lineFeed_notMem_trim hline)
    rw [htrim]
    exact cutAtWord?_append (keyword_ne_nil .or) (isWord_of_mem_keyword .or) hfree
      (by rwa [Option.or_none]) hafter'
  exact {
    line := hline
    reads := fun groups' hgroups => by
      rw [parseFlat_of_split .or hplain htrim hbefore' hafter'
        (by simp [hleft.trimStart_ne_nil]) hsplit, Split.tree, hleft.reads_trimStart hgroups,
        hright.reads_trimEnd hgroups]
    nonblank := by
      rw [htrim]
      simp
    orFree := fun hlt => absurd hlt (by decide)
    andFree := fun hlt => absurd hlt (by decide)
    arrayFree := fun hlt => absurd hlt (by decide) }

theorem and (hplain : ∀ name, defined name = true → isPlainWord name = true)
    (hleft : Reads defined groups .array left before)
    (hright : Reads defined groups .and right after)
    (hbefore : isBoundary before.getLast? = true) (hafter : isBoundary after.head? = true) :
    Reads defined groups .and (.and left right) (before ++ (andWord ++ after)) := by
  have htrim : trim (before ++ (andWord ++ after)) =
      trimStart before ++ andWord ++ trimEnd after := trim_append_keyword .and before after
  have hbefore' : isBoundary (trimStart before).getLast? = true := by
    rwa [isBoundary_getLast?_trimStart]
  have hafter' : isBoundary (trimEnd after).head? = true := by
    rwa [isBoundary_head?_trimEnd]
  have hor : Free orWord (trimStart before ++ andWord ++ trimEnd after) :=
    Free.append_keyword .and .or (by simp)
      (hleft.orFree (by decide)) (hright.orFree (by decide)) hbefore hafter
  have hfree : Free andWord (trimStart before) := by
    apply Free.of_trim .and
    rw [trim_trimStart]
    exact hleft.andFree (by decide)
  have hline : '\n' ∉ before ++ (andWord ++ after) :=
    lineFeed_notMem_append .and hleft.line hright.line
  have hsplit : split? (trim (before ++ (andWord ++ after))) =
      some (.and (trimStart before) (trimEnd after)) := by
    apply split?_of_and (lineFeed_notMem_trim hline) (by rwa [htrim])
    rw [htrim]
    exact cutAtWord?_append (keyword_ne_nil .and) (isWord_of_mem_keyword .and) hfree
      (by rwa [Option.or_none]) hafter'
  exact {
    line := hline
    reads := fun groups' hgroups => by
      rw [parseFlat_of_split .and hplain htrim hbefore' hafter'
        (by simp [hleft.trimStart_ne_nil]) hsplit, Split.tree, hleft.reads_trimStart hgroups,
        hright.reads_trimEnd hgroups]
    nonblank := by
      rw [htrim]
      simp
    orFree := fun _ => by rwa [htrim]
    andFree := fun hlt => absurd hlt (by decide)
    arrayFree := fun hlt => absurd hlt (by decide) }

theorem array (hplain : ∀ name, defined name = true → isPlainWord name = true)
    (h : Reads defined groups .array tree flat) (hmeet : isBoundary flat.getLast? = true) :
    Reads defined groups .array (.arrayOf tree) (flat ++ arrayWord) := by
  have htrim : trim (flat ++ arrayWord) = trimStart flat ++ arrayWord ++ trimEnd [] :=
    trim_append_keyword .array flat []
  have hmeet' : isBoundary (trimStart flat).getLast? = true := by
    rwa [isBoundary_getLast?_trimStart]
  have hor : Free orWord (trimStart flat ++ arrayWord ++ trimEnd []) :=
    Free.append_keyword .array .or (by simp)
      (h.orFree (by decide)) (free_nil _) hmeet rfl
  have hand : Free andWord (trimStart flat ++ arrayWord ++ trimEnd []) :=
    Free.append_keyword .array .and (by simp)
      (h.andFree (by decide)) (free_nil _) hmeet rfl
  have hline : '\n' ∉ flat ++ arrayWord :=
    lineFeed_notMem_append .array h.line List.not_mem_nil
  have hsplit : split? (trim (flat ++ arrayWord)) = some (.arrayOf (trimStart flat)) := by
    apply split?_of_array (lineFeed_notMem_trim hline) (by rwa [htrim]) (by rwa [htrim])
    rw [htrim, beforeFinal?_eq_some_iff]
    exact ⟨List.append_nil _, hmeet'⟩
  exact {
    line := hline
    reads := fun groups' hgroups => by
      rw [parseFlat_of_split .array hplain htrim hmeet' rfl
        (by simp [h.trimStart_ne_nil]) hsplit, Split.tree, h.reads_trimStart hgroups]
    nonblank := by
      rw [htrim]
      simp
    orFree := fun _ => by rwa [htrim]
    andFree := fun _ => by rwa [htrim]
    arrayFree := fun hlt => absurd hlt (by decide) }

theorem not (hplain : ∀ name, defined name = true → isPlainWord name = true)
    (h : Reads defined groups .not tree flat) (hmeet : isBoundary flat.head? = true) :
    Reads defined groups .not (.not tree) (notWord ++ flat) := by
  have htrim : trim (notWord ++ flat) = trimStart [] ++ notWord ++ trimEnd flat :=
    trim_append_keyword .not [] flat
  have hmeet' : isBoundary (trimEnd flat).head? = true := by
    rwa [isBoundary_head?_trimEnd]
  have hor : Free orWord (trimStart [] ++ notWord ++ trimEnd flat) :=
    Free.append_keyword .not .or (by simp)
      (free_nil _) (h.orFree (by decide)) rfl hmeet
  have hand : Free andWord (trimStart [] ++ notWord ++ trimEnd flat) :=
    Free.append_keyword .not .and (by simp)
      (free_nil _) (h.andFree (by decide)) rfl hmeet
  have hhead : ∀ c ∈ flat.head?, isPlain c = false := by
    intro c hc
    rw [Bool.eq_false_iff]
    intro hplain
    rw [hc, isBoundary_some, isWord_of_isPlain hplain] at hmeet
    cases hmeet
  have harray : beforeFinal? arrayWord (trimStart [] ++ notWord ++ trimEnd flat) = none :=
    (beforeFinal?_not_append hhead).mpr (h.arrayFree (by decide))
  have hline : '\n' ∉ notWord ++ flat :=
    lineFeed_notMem_append .not List.not_mem_nil h.line
  have hsplit : split? (trim (notWord ++ flat)) = some (.not (trimEnd flat)) := by
    apply split?_of_not (lineFeed_notMem_trim hline) (by rwa [htrim]) (by rwa [htrim])
      (by rwa [htrim])
    rw [htrim, afterInitial?_eq_some_iff]
    exact ⟨rfl, hmeet'⟩
  exact {
    line := hline
    reads := fun groups' hgroups => by
      rw [parseFlat_of_split .not hplain htrim rfl hmeet'
        (by simp [h.trimEnd_ne_nil]) hsplit, Split.tree, h.reads_trimEnd hgroups]
    nonblank := by
      rw [htrim]
      simp
    orFree := fun _ => by rwa [htrim]
    andFree := fun _ => by rwa [htrim]
    arrayFree := fun _ => by rwa [htrim] }

end Reads

end Switchboard.Parser
