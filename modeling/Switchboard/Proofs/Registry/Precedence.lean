import Switchboard.Proofs.Registry.Entries

/-!
When a name means itself. A text that is a name is read as that name, unless the cache
already has another tree for it. Binding a name that is no plain word empties the
cache; what is left are two ways to a stale tree. A keyword is a plain word, so the
tree it had before it was bound stays. And a name with a group may be the normal
spelling of another text, under which a tree is kept that no look-up of names has
seen. For all other names the tree is the name, whatever was compiled before.
-/

namespace Switchboard

variable {σ : Type}

open Switchboard.Parser (IsOperandWord keywords)
open Switchboard.Groups (Groupless)
open Switchboard.Spelling (normalize)

namespace Registry

/-- The built-in names. -/
def builtinNames : List String :=
  Table.keys (builtins : List (String × Binding Unit))

theorem keys_builtins : Table.keys (builtins : List (String × Binding σ)) = builtinNames := rfl

/-- A new registry has the built-in names, if they are installed. -/
theorem contains_new_iff (options : Options) (state : σ) (name : String) :
    (new options state).contains name = true ↔ options.builtins = true ∧ name ∈ builtinNames := by
  rw [contains, Table.contains, Option.isSome_iff_ne_none, new]
  by_cases hbuiltins : options.builtins = true
  · simp only [hbuiltins, if_true, Ne, Table.get?_eq_none_iff, keys_builtins, not_not, true_and]
  · simp only [hbuiltins, Bool.false_eq_true, if_false, Table.get?, ne_eq, not_true_eq_false,
      false_and]

theorem isPlainWord_of_contains_new {options : Options} {state : σ} {name : String}
    (h : (new options state).contains name = true) : Text.isPlainWord name = true := by
  have hplain : ∀ name ∈ builtinNames, Text.isPlainWord name = true := by decide
  exact hplain name ((contains_new_iff options state name).mp h).2

theorem paren_notMem_of_contains_new {options : Options} {state : σ} {name : String}
    (h : (new options state).contains name = true) : '(' ∉ name.toList ∧ ')' ∉ name.toList :=
  ⟨Parser.notMem_of_isPlainWord (isPlainWord_of_contains_new h) (by decide),
    Parser.notMem_of_isPlainWord (isPlainWord_of_contains_new h) (by decide)⟩

/-- A name whose tree no earlier compilation can spoil: it is no keyword, unless it was
there from the start, and has no group, unless no text is spelled like it. -/
def Secure (options : Options) (state : σ) (name : String) : Prop :=
  ((new options state).contains name = true ∨ name.toList ∉ keywords) ∧
    (normalize name = name → Groupless name.toList)

/-- A secure name has no tree but itself in the cache, once it is bound and, if it is an
operand word, before that too. -/
def Settled (options : Options) (state : σ) (registry : Registry σ) : Prop :=
  registry.cache.All fun key tree =>
    registry.contains key = true ∨ IsOperandWord key → Secure options state key →
      tree = .named key

theorem settled_new (options : Options) (state : σ) :
    Settled options state (new options state) :=
  Cache.all_empty _

theorem Settled.compile {options : Options} {state : σ} {registry : Registry σ}
    (h : Settled options state registry) (source : String) :
    Settled options state (registry.compile source).2 := by
  refine Cache.All.compile h ?_ ?_ ?_
  · intro _ _ _
    rfl
  · intro _ hname hsecure
    have hnormal : normalize (normalize source) = normalize source :=
      Spelling.normalize_normalize source
    rcases hname with hcontains | hword
    · apply Parser.parse_of_defined hcontains (hsecure.2 hnormal)
      rw [Spelling.toList_normalize]
      exact Spelling.trimmed_normalChars _
    · exact Parser.parse_of_isOperandWord hword _
  · intro tree hdefined htree hname hsecure
    rcases hname with hcontains | hword
    · rw [contains_compile, hdefined] at hcontains
      cases hcontains
    · rw [Spelling.normalize_of_isPlainWord hword.1] at htree
      exact htree (Or.inr hword) hsecure

theorem Settled.makeBinding {options : Options} {state : σ} {registry : Registry σ}
    (h : Settled options state registry) (hnew : ∀ name, (new options state).contains name = true →
      registry.contains name = true) (name : String) (binding : Binding σ) :
    Settled options state (registry.makeBinding name binding) := by
  intro key parsed hentry hname hsecure
  rw [cache_makeBinding] at hentry
  split at hentry
  · next hkept =>
      apply h key parsed hentry ?_ hsecure
      rcases hname with hcontains | hword
      · rcases (contains_makeBinding registry name binding key).mp hcontains with rfl | hcontains
        · rw [Bool.or_eq_true] at hkept
          rcases hkept with hcontains | hplain
          · exact Or.inl hcontains
          · rcases hsecure.1 with hinitial | hkeyword
            · exact Or.inl (hnew key hinitial)
            · exact Or.inr ⟨hplain, hkeyword⟩
        · exact Or.inl hcontains
      · exact Or.inr hword
  · cases hentry

theorem ReachableFrom.settled {options : Options} {state : σ} {registry : Registry σ}
    (h : ReachableFrom options state registry) : Settled options state registry := by
  refine (Steps.invariant (fun registry => Settled options state registry ∧
    ∀ name, (new options state).contains name = true → registry.contains name = true)
    ?_ ?_ ?_ h.steps ⟨settled_new options state, fun _ hname => hname⟩).1
  · rintro registry source ⟨hsettled, hnames⟩
    exact ⟨hsettled.compile source, hnames⟩
  · rintro registry name binding ⟨hsettled, hnames⟩
    refine ⟨hsettled.makeBinding hnames name binding, ?_⟩
    intro other hother
    exact (contains_makeBinding registry name binding other).mpr (Or.inr (hnames other hother))
  · rintro registry after _ hbindings hcache ⟨hsettled, hnames⟩
    have hcontains := contains_congr hbindings
    exact ⟨by rw [Settled, hcontains, hcache]; exact hsettled, by rwa [hcontains]⟩

/-- A tree that can be returned for a text is an entry of a reachable cache. -/
theorem compile_settled {options : Options} {state : σ} {registry : Registry σ}
    (h : ReachableFrom options state registry) {name : String} (hsecure : Secure options state name)
    (hname : registry.contains name = true) :
    (registry.compile name).1.tree = .named name :=
  (h.compile name).settled name _ (Cache.get?_compile_self _ name registry.cache)
    (Or.inl hname) hsecure

/-- Any name that is not blank can be bound to a test, over an earlier binding if there
is one. -/
theorem operation_bindTest (registry : Registry σ) {name : String}
    (hname : Text.isBlankText name = false) (test : Test σ) :
    Operation registry (registry.makeBinding name (.test test)) := by
  refine .redefine registry _ 0 name (.test test) (.ok ()) ?_
  have hcheck : registry.bindFault? true name (.test test) = (none, registry) := by
    simp [bindFault?, hname]
  exact bind_run_of_valid _ hcheck

theorem ReachableFrom.bindTest {options : Options} {state : σ} {registry : Registry σ}
    (h : ReachableFrom options state registry) {name : String}
    (hname : Text.isBlankText name = false) (test : Test σ) :
    ReachableFrom options state (registry.makeBinding name (.test test)) :=
  h.tail (operation_bindTest registry hname test)

theorem compile_new {options : Options} {state : σ} {source : String}
    (h : (new options state).contains source = false) :
    ((new options state).compile source).1.tree =
      Parser.parse (new options state).contains (normalize source) := by
  have heq := Cache.compile_of_undefined (Cache.get?_empty source) h
  change ((Cache.compile _ source Cache.empty).1).tree = _
  rw [heq]
  rfl

/-- A keyword that is no name splits at itself. -/
theorem parse_ne_named_of_mem_keywords {defined : String → Bool} {name : String}
    (hname : name.toList ∈ keywords) (hdefined : defined name = false) :
    Parser.parse defined name ≠ .named name := by
  have hwords : ∀ word ∈ keywords, '(' ∉ word ∧ Groups.openMark ∉ word ∧ Text.trim word = word ∧
      (Parser.split? word).isSome = true := by decide
  obtain ⟨hopen, hmark, htrim, hsplit⟩ := hwords _ hname
  obtain ⟨split, hsplit⟩ := Option.isSome_iff_exists.mp hsplit
  rw [Parser.parse_of_groupless (Groups.groupless_of_notMem hopen), Parser.parseFlat, htrim,
    Parser.parseTrimmed_of_split (by rwa [String.ofList_toList])
      (Groups.find?_eq_none hmark []) hsplit]
  cases split <;> simp [Parser.Split.tree]

/-- A keyword that is bound after it was read keeps the tree it had. -/
theorem exists_stale_keyword {options : Options} (state : σ) {name : String}
    (hkeyword : name.toList ∈ keywords) (hnew : (new options state).contains name = false) :
    ∃ registry, ReachableFrom options state registry ∧ registry.contains name = true ∧
      (registry.compile name).1.tree ≠ .named name := by
  have hwords : ∀ word ∈ keywords, word.all Text.isBlank = false ∧
      (!word.isEmpty && word.all Text.isPlain) = true := by decide
  obtain ⟨hblank, hplain⟩ := hwords _ hkeyword
  have hread : ReachableFrom options state ((new options state).compile name).2 :=
    ReachableFrom.compile .refl name
  refine ⟨_, hread.bindTest hblank (.kinds .all), ?_, ?_⟩
  · exact (contains_makeBinding _ name _ name).mpr (Or.inl rfl)
  · have hkept := cache_makeBinding ((new options state).compile name).2 name
      (.test (.kinds .all))
    rw [Text.isPlainWord, hplain, Bool.or_true, if_pos rfl] at hkept
    have hentry : (((new options state).compile name).2.makeBinding name
        (.test (.kinds .all))).cache.get? name = some ((new options state).compile name).1 := by
      rw [hkept]
      exact Cache.get?_compile_self _ name Cache.empty
    rw [compile, Cache.compile_of_cached hentry]
    change ((new options state).compile name).1.tree ≠ .named name
    rw [compile_new hnew, Spelling.normalize_of_isPlainWord hplain]
    exact parse_ne_named_of_mem_keywords hkeyword hnew

/-- A name with a group that is its own normal spelling loses to the tree of a text that
is spelled like it. -/
theorem exists_stale_group (options : Options) (state : σ) {name : String}
    (hnormal : normalize name = name) (hgroup : ¬ Groupless name.toList) :
    ∃ registry, ReachableFrom options state registry ∧ registry.contains name = true ∧
      (registry.compile name).1.tree ≠ .named name := by
  have hopen : '(' ∈ name.toList := by
    by_contra hopen
    exact hgroup (Groups.groupless_of_notMem hopen)
  have hblank : Text.isBlankText name = false := by
    rw [Bool.eq_false_iff]
    intro hblank
    exact absurd (List.all_eq_true.mp hblank _ hopen) (by decide)
  let bound := (new options state).makeBinding name (.test (.kinds .all))
  have hbound : ReachableFrom options state bound := ReachableFrom.bindTest .refl hblank _
  have hcontains : bound.contains name = true :=
    (contains_makeBinding _ name _ name).mpr (Or.inl rfl)
  -- a blank in front makes another text with the same normal spelling
  let padded := String.ofList (' ' :: name.toList)
  have hpadded : normalize padded = name := by
    have hcons := Spelling.normalChars_append_blank [] name.toList
    rw [Spelling.normalize, String.toList_ofList]
    rw [List.nil_append] at hcons
    rw [hcons]
    exact hnormal
  have hfresh : bound.contains padded = false := by
    rw [Bool.eq_false_iff]
    intro hpad
    rcases (contains_makeBinding _ name _ padded).mp hpad with heq | hold
    · have hlength := congrArg (fun text => text.toList.length) heq
      simp only [padded, String.toList_ofList, List.length_cons] at hlength
      omega
    · have hplain := isPlainWord_of_contains_new hold
      rw [Text.isPlainWord, String.toList_ofList, Bool.and_eq_true, List.all_cons,
        Bool.and_eq_true] at hplain
      exact absurd hplain.2.1 (by decide)
  have hempty : bound.cache.get? padded = none := by
    rw [cache_makeBinding]
    split <;> rfl
  refine ⟨_, hbound.compile padded, hcontains, ?_⟩
  have hentry := Cache.get?_compile_normalize hempty hfresh
  rw [hpadded] at hentry
  rw [compile]
  change ((Cache.compile _ name (bound.cache.compile bound.contains padded).2).1).tree ≠ _
  rw [Cache.compile_of_cached hentry, Cache.compile_of_undefined hempty hfresh, hpadded]
  change (bound.cache.compileNormal bound.contains name).1.tree ≠ _
  have hnone : bound.cache.get? name = none := by
    rw [cache_makeBinding]
    split <;> rfl
  rw [Cache.compileNormal, hnone]
  exact Parser.parse_ne_named hgroup

/-- A name always means itself if and only if it is secure. -/
theorem compile_named_iff (options : Options) (state : σ) (name : String) :
    (∀ registry, ReachableFrom options state registry → registry.contains name = true →
      (registry.compile name).1.tree = .named name) ↔
    ((new options state).contains name = true ∨ name.toList ∉ keywords) ∧
      (normalize name = name → Groupless name.toList) := by
  constructor
  · intro hall
    constructor
    · by_contra hstale
      rw [not_or, not_not, Bool.not_eq_true] at hstale
      obtain ⟨registry, hreach, hname, hne⟩ := exists_stale_keyword state hstale.2 hstale.1
      exact hne (hall registry hreach hname)
    · intro hnormal
      by_contra hgroup
      obtain ⟨registry, hreach, hname, hne⟩ := exists_stale_group options state hnormal hgroup
      exact hne (hall registry hreach hname)
  · intro hsecure registry hreach hname
    exact compile_settled hreach hsecure hname

/-- Compiling `or`, binding `or` and compiling it again: the text still means the
disjunction of two empty names. -/
theorem compile_or_of_define_or :
    ∃ after : Registry Unit,
      (define (.upTo 0) "or" (.test (.kinds .all))).run ((new .standard ()).compile "or").2 =
        some (.ok (), after) ∧
      ReachableFrom .standard () after ∧ after.contains "or" = true ∧
      (after.compile "or").1.tree = .or (.named "") (.named "") ∧
      (after.compile "or").1.tree ≠ .named "or" := by
  refine ⟨_, rfl, ?_, by decide, by decide +kernel, by decide +kernel⟩
  have hread : ReachableFrom .standard () ((new .standard ()).compile "or").2 :=
    ReachableFrom.compile .refl "or"
  exact hread.tail (.define _ _ 0 "or" (.test (.kinds .all)) (.ok ()) rfl)

end Registry

end Switchboard
