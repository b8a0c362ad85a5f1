import Switchboard.Proofs.Printing.Between
import Switchboard.Proofs.Registry.Meaning
import Switchboard.Proofs.Registry.Precedence

/-!
Names joined by a keyword. A name made of word characters is read as itself, in whatever
script; but whether two such names with ` or ` or ` and ` between them are read as two names is
up to the characters that stand beside the keyword. Spacing goes by plain characters and
drops the blank beside any other one, and the keyword is looked for between boundaries of
wide words. So beside a word character that is not plain the keyword is glued to the name, and
the whole text is one name.
-/

namespace Switchboard

open Text
open Switchboard.Spelling (between glue normalChars normalize)
open Switchboard.Parser (keywords orWord andWord arrayWord notWord)

/-- A name made of word characters of any script that is no keyword. -/
structure IsWordName (name : String) : Prop where
  nonempty : name.toList ≠ []
  word : ∀ c ∈ name.toList, isWord c = true
  operand : name.toList ∉ keywords

namespace Spelling

theorem signFree_of_all_isWord {text : List Char} (h : ∀ c ∈ text, isWord c = true) :
    SignFree text := by
  induction text with
  | nil => exact ⟨by simp, .nil⟩
  | cons c rest ih =>
      obtain ⟨hc, hrest⟩ := List.forall_mem_cons.mp h
      refine (signFree_cons c rest).mpr ⟨?_, ?_, ih hrest⟩
      · rintro rfl
        exact absurd hc (by decide)
      · rintro d _ (⟨rfl, _⟩ | ⟨rfl, _⟩ | ⟨rfl, _⟩) <;> exact absurd hc (by decide)

theorem normalChars_of_all_isWord {text : List Char} (h : ∀ c ∈ text, isWord c = true) :
    normalChars text = text := by
  rw [normalChars, spellOut_of_signFree (signFree_of_all_isWord h), weigh_of_not_isBlank]
  exact fun c hc => isBlank_eq_false_of_isWord (h c hc)

/-- The normal spelling of two words with a keyword between them. -/
theorem normalChars_joined {before after : List Char} (operator : Operator)
    (hbefore : ∀ c ∈ before, isWord c = true) (hafter : ∀ c ∈ after, isWord c = true) :
    normalChars (before ++ ' ' :: operator.keyword ++ ' ' :: after) =
      between before operator.keyword after := by
  rw [normalChars_append_blank, normalChars_append_blank, normalChars_of_all_isWord hbefore,
    normalChars_of_all_isWord hafter,
    normalChars_of_all_isWord (Parser.isWord_of_mem_keyword operator), between]

end Spelling

namespace IsWordName

variable {name left right : String} {defined : String → Bool} {groups : List Expr}

theorem trimmed (h : IsWordName name) : Trimmed name.toList :=
  trimmed_of_all_isWord h.word

theorem notMem (h : IsWordName name) {c : Char} (hc : isWord c = false) : c ∉ name.toList := by
  intro hmem
  simp [h.word c hmem] at hc

/-- No keyword is seen in a name. -/
theorem free (h : IsWordName name) (operator : Operator) :
    Parser.Free operator.keyword name.toList := by
  apply Parser.free_of_all_isWord (Parser.keyword_ne_nil operator) h.word
  intro heq
  apply h.operand
  rw [heq]
  cases operator <;> simp [Operator.keyword, keywords]

/-- A name is read as itself, defined or not. -/
theorem parseFlat_eq (h : IsWordName name) :
    Parser.parseFlat defined groups name.toList = .named name := by
  have hfind : Groups.find? groups name.toList = none :=
    Groups.find?_eq_none (h.notMem (by decide +kernel)) groups
  have hsplit : Parser.split? name.toList = none :=
    Parser.split?_of_all_isWord h.word h.operand
  rw [Parser.parseFlat, trim_of_trimmed h.trimmed, Parser.parseTrimmed_of_no_split hfind hsplit,
    String.ofList_toList]

end IsWordName

namespace Parser

variable {left right : String} {defined : String → Bool} (operator : Operator)

/-- A text of two names with a keyword between them has no blanks at its edges. -/
theorem trim_between (hleft : IsWordName left) (hright : IsWordName right) :
    trim (between left.toList operator.keyword right.toList) =
      between left.toList operator.keyword right.toList := by
  apply trim_of_trimmed
  have hhead := hleft.trimmed.1
  have hlast := hright.trimmed.2
  rw [Spelling.between_keyword]
  constructor
  · simpa [NoLeadingBlank, List.head?_append, List.head?_eq_some_head hleft.nonempty] using hhead
  · simpa [NoTrailingBlank, List.getLast?_append, List.getLast?_eq_some_getLast hright.nonempty]
      using hlast

/-- It is longer than either name, so it is no name itself if there are no other names. -/
theorem undefined_between
    (hdefined : ∀ name, defined name = true → name = left ∨ name = right) :
    defined (String.ofList (between left.toList operator.keyword right.toList)) = false := by
  have hkeyword : 0 < operator.keyword.length :=
    List.length_pos_iff.mpr (keyword_ne_nil operator)
  rw [Bool.eq_false_iff]
  intro htext
  rcases hdefined _ htext with heq | heq
  all_goals
    have hlength := congrArg (fun name => name.toList.length) heq
    simp only [String.toList_ofList, Spelling.between_keyword, List.length_append] at hlength
    omega

/-- With a wide character beside the keyword, no keyword of the text is seen. -/
theorem split?_between (hleft : IsWordName left) (hright : IsWordName right)
    (hwide : ¬ (endsWide left.toList = false ∧ startsWide right.toList = false)) :
    split? (between left.toList operator.keyword right.toList) = none := by
  obtain ⟨front, back, h⟩ := exists_spaced operator left.toList right.toList
  have hfree (other : Operator) :
      Free other.keyword (between left.toList operator.keyword right.toList) := by
    by_cases hne : operator = other
    · subst hne
      exact h.free_of_wide (hleft.free operator) (hright.free operator) hwide
    · exact h.free other hne (hleft.free other) (hright.free other)
  apply split?_of_free
  simp only [keywords, List.forall_mem_cons]
  exact ⟨hfree .or, hfree .and, hfree .not, hfree .array, by simp⟩

/-- Two names joined by `or` or `and` are read as two names if no wide character stands beside
the keyword, and as one name else. -/
theorem parseFlat_joined (hleft : IsWordName left) (hright : IsWordName right)
    (hdefined : ∀ name, defined name = true → name = left ∨ name = right)
    {node : Expr → Expr → Expr}
    (hnode : (operator = .or ∧ node = Expr.or) ∨ (operator = .and ∧ node = Expr.and)) :
    parseFlat defined [] (between left.toList operator.keyword right.toList) =
      if endsWide left.toList || startsWide right.toList then
        .named (String.ofList (between left.toList operator.keyword right.toList))
      else node (.named left) (.named right) := by
  have htrim := trim_between operator hleft hright
  have hundefined : defined (String.ofList
      (trim (between left.toList operator.keyword right.toList))) = false := by
    rw [htrim]
    exact undefined_between operator hdefined
  obtain ⟨front, back, h⟩ := exists_spaced operator left.toList right.toList
  have hfind := h.find?_eq_none []
  have hline : '\n' ∉ trim (between left.toList operator.keyword right.toList) :=
    lineFeed_notMem_trim (Spelling.lineFeed_notMem_between operator (hleft.notMem (by decide))
      (hright.notMem (by decide)))
  by_cases hwide : endsWide left.toList = false ∧ startsWide right.toList = false
  · have hcut := (h.exists_cut_iff (hleft.free operator) (hright.free operator) defined []
      (.named left) (.named right)).mpr ⟨hwide, hleft.parseFlat_eq, hright.parseFlat_eq⟩
    simp only [hwide.1, hwide.2, Bool.or_self, Bool.false_eq_true, if_false]
    rcases hnode with ⟨rfl, rfl⟩ | ⟨rfl, rfl⟩
    · exact (parseFlat_eq_or_iff hline hundefined hfind).mpr hcut
    · have hor : Free orWord (trim (between left.toList andWord right.toList)) :=
        (h.free .or (by simp) (hleft.free .or) (hright.free .or)).to_trim (keyword_ne_nil .or)
      exact (parseFlat_eq_and_iff hline hundefined hfind hor).mpr hcut
  · have hsome : (endsWide left.toList || startsWide right.toList) = true := by
      revert hwide
      cases endsWide left.toList <;> cases startsWide right.toList <;> simp
    rw [parseFlat_of_split? hundefined hfind, htrim, split?_between operator hleft hright hwide,
      if_pos hsome]
    rfl

end Parser

namespace Registry

variable {σ : Type} {options : Options} {state : σ} {registry : Registry σ} {left right : String}

/-- What two names with a keyword between them mean, if there are no other names. -/
theorem meaning_joined {defined : String → Bool} (hleft : IsWordName left)
    (hright : IsWordName right)
    (hdefined : ∀ name, defined name = true → name = left ∨ name = right)
    {operator : Operator} {node : Expr → Expr → Expr}
    (hnode : (operator = .or ∧ node = Expr.or) ∨ (operator = .and ∧ node = Expr.and))
    {source : String}
    (hsource : source.toList = left.toList ++ ' ' :: operator.keyword ++ ' ' :: right.toList) :
    Cache.meaning defined source =
      if endsWide left.toList || startsWide right.toList then .named (normalize source)
      else node (.named left) (.named right) := by
  have hblank : defined source = false := by
    rw [Bool.eq_false_iff]
    intro htext
    have hspace : ' ' ∈ source.toList := by simp [hsource]
    rcases hdefined _ htext with rfl | rfl
    · exact hleft.notMem (by decide) hspace
    · exact hright.notMem (by decide) hspace
  have hnormal : normalize source =
      String.ofList (between left.toList operator.keyword right.toList) := by
    rw [Spelling.normalize, hsource, Spelling.normalChars_joined operator hleft.word hright.word]
  have hopen : '(' ∉ between left.toList operator.keyword right.toList :=
    Spelling.notMem_between (by decide) (Parser.paren_notMem_keyword operator).1
      (hleft.notMem (by decide)) (hright.notMem (by decide))
  have hgroupless : Groups.Groupless (normalize source).toList := by
    rw [hnormal, String.toList_ofList]
    exact Groups.groupless_of_notMem hopen
  rw [Cache.meaning, if_neg (by simp [hblank]), Parser.parse_of_groupless hgroupless, hnormal,
    String.toList_ofList]
  exact Parser.parseFlat_joined operator hleft hright hdefined hnode

/-- In a registry whose only names are two words of any script, the two names with ` or ` or
` and ` between them compile to the two names joined, unless the first ends or the second
starts with a word character that is not plain: then the text compiles to a single name, which
has the keyword in it. -/
theorem compile_joined (hreach : ReachableFrom options state registry) (hleft : IsWordName left)
    (hright : IsWordName right)
    (hnames : ∀ name, registry.contains name = true ↔ name = left ∨ name = right) :
    (registry.compile (left ++ " or " ++ right)).1.tree =
        (if endsWide left.toList || startsWide right.toList then
          .named (normalize (left ++ " or " ++ right))
        else .or (.named left) (.named right)) ∧
      (registry.compile (left ++ " and " ++ right)).1.tree =
        (if endsWide left.toList || startsWide right.toList then
          .named (normalize (left ++ " and " ++ right))
        else .and (.named left) (.named right)) := by
  have hgroupless : GrouplessNames registry := by
    intro name hname
    apply Groups.groupless_of_notMem
    rcases (hnames name).mp hname with rfl | rfl
    · exact hleft.notMem (by decide)
    · exact hright.notMem (by decide)
  have htree (source : String) : ∃ defined : String → Bool,
      (∀ name, defined name = true → name = left ∨ name = right) ∧
        (registry.compile source).1.tree = Cache.meaning defined source := by
    obtain ⟨defined, hearlier, htree⟩ := hreach.exists_earlier hgroupless source
    exact ⟨defined, fun name hname => (hnames name).mp (hearlier.contains name hname), htree⟩
  constructor
  · obtain ⟨defined, hdefined, htree⟩ := htree (left ++ " or " ++ right)
    rw [htree]
    apply meaning_joined hleft hright hdefined (Or.inl ⟨rfl, rfl⟩)
    simp [Operator.keyword]
  · obtain ⟨defined, hdefined, htree⟩ := htree (left ++ " and " ++ right)
    rw [htree]
    apply meaning_joined hleft hright hdefined (Or.inr ⟨rfl, rfl⟩)
    simp [Operator.keyword]

/-- A registry with these two names and no other one. -/
def paired (left right : String) : Registry Unit :=
  ((new ⟨false, 64⟩ ()).makeBinding left (.test (.kinds .all))).makeBinding right
    (.test (.kinds .all))

theorem reachable_paired (hleft : Text.isBlankText left = false)
    (hright : Text.isBlankText right = false) :
    ReachableFrom ⟨false, 64⟩ () (paired left right) := by
  apply ReachableFrom.bindTest _ hright
  exact ReachableFrom.bindTest .refl hleft _

theorem contains_paired (name : String) :
    (paired left right).contains name = true ↔ name = left ∨ name = right := by
  have hnew : (new ⟨false, 64⟩ ()).contains name = false := rfl
  simp [paired, contains_makeBinding, hnew, or_comm]

theorem isWordName_singleton {c : Char} (hc : isWord c = true) :
    IsWordName (String.ofList [c]) where
  nonempty := by simp
  word := by simpa using hc
  operand := by simp [keywords]

/-- The names `x` and `y` stay apart from a keyword between them. -/
theorem compile_joined_plain :
    ((paired "x" "y").compile "x or y").1.tree = .or (.named "x") (.named "y") ∧
      ((paired "x" "y").compile "x and y").1.tree = .and (.named "x") (.named "y") := by
  have hx : IsWordName "x" := isWordName_singleton (by decide)
  have hy : IsWordName "y" := isWordName_singleton (by decide)
  exact compile_joined (reachable_paired (by decide) (by decide)) hx hy contains_paired

/-- The name `é` is glued to the keyword behind it: no name of the tree is registered. -/
theorem compile_joined_wide :
    IsWordName "é" ∧ IsWordName "x" ∧ ReachableFrom ⟨false, 64⟩ () (paired "é" "x") ∧
      (∀ name, (paired "é" "x").contains name = true ↔ name = "é" ∨ name = "x") ∧
      ((paired "é" "x").compile "é or x").1.tree = .named "éor x" ∧
      ((paired "é" "x").compile "é or x").1.tree ≠ .or (.named "é") (.named "x") := by
  have hreach : ReachableFrom ⟨false, 64⟩ () (paired "é" "x") :=
    reachable_paired (by decide +kernel) (by decide)
  have htree : ((paired "é" "x").compile "é or x").1.tree = .named "éor x" := by decide +kernel
  refine ⟨isWordName_singleton (by decide +kernel), isWordName_singleton (by decide), hreach,
    contains_paired, htree, ?_⟩
  simp [htree]

end Registry

end Switchboard
