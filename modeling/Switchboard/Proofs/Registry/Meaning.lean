import Switchboard.Proofs.Registry.Entries

/-!
What a cached tree says about the names at the time it was made. Without names that
hold a group, every entry is what its text means under some earlier set of names, and
all names bound since are plain words; every other binding has emptied the cache. A
plain word that is no keyword reads the same bound or not. So as long as no keyword has
been bound since the registry was made, the entries are what their texts mean now.
-/

namespace Switchboard

variable {σ : Type}

open Switchboard.Parser (IsOperandWord keywords)
open Switchboard.Groups (Groupless)

namespace Cache

/-- A text that is read under its normal spelling, and the spelling itself, mean the
same. -/
theorem meaning_normalize {defined : String → Bool} {source : String}
    (hgroupless : ∀ name, defined name = true → Groupless name.toList)
    (hsource : defined source = false) :
    meaning defined (Spelling.normalize source) = meaning defined source := by
  have hright : meaning defined source = Parser.parse defined (Spelling.normalize source) := by
    simp [meaning, hsource]
  rw [hright, meaning]
  split
  · next hdefined =>
      rw [Parser.parse_of_defined hdefined (hgroupless _ hdefined)]
      rw [Spelling.toList_normalize]
      exact Spelling.trimmed_normalChars _
  · rw [Spelling.normalize_normalize]

theorem meaning_of_isOperandWord {name : String} (h : IsOperandWord name)
    (defined : String → Bool) : meaning defined name = .named name := by
  rw [meaning]
  split
  · rfl
  · rw [Spelling.normalize_of_isPlainWord h.1, Parser.parse_of_isOperandWord h]

/-- Which operand words are defined has no influence on what texts mean. -/
theorem meaning_congr {defined defined' : String → Bool}
    (h : ∀ name, defined name = defined' name ∨ IsOperandWord name) (source : String) :
    meaning defined source = meaning defined' source := by
  rcases h source with heq | hword
  · rw [meaning, meaning, heq, Parser.parse_congr h]
  · rw [meaning_of_isOperandWord hword, meaning_of_isOperandWord hword]

end Cache

namespace Registry

/-- A set of names that a registry has had: those it started with are among them, and
those it has got since are plain words. -/
structure Earlier (initial : String → Bool) (registry : Registry σ) (defined : String → Bool) :
    Prop where
  initial : ∀ name, initial name = true → defined name = true
  contains : ∀ name, defined name = true → registry.contains name = true
  since : ∀ name, registry.contains name = true →
    defined name = true ∨ Text.isPlainWord name = true

/-- Each entry is what its text meant at an earlier time. -/
def Dated (initial : String → Bool) (registry : Registry σ) : Prop :=
  registry.cache.All fun key tree =>
    ∃ defined, Earlier initial registry defined ∧ tree = Cache.meaning defined key

/-- No name holds a group. -/
def GrouplessNames (registry : Registry σ) : Prop :=
  ∀ name, registry.contains name = true → Groupless name.toList

theorem earlier_contains {initial : String → Bool} {registry : Registry σ}
    (h : ∀ name, initial name = true → registry.contains name = true) :
    Earlier initial registry registry.contains :=
  ⟨h, fun _ hname => hname, fun _ hname => Or.inl hname⟩

theorem Earlier.compile {initial defined : String → Bool} {registry : Registry σ}
    (h : Earlier initial registry defined) (source : String) :
    Earlier initial (registry.compile source).2 defined :=
  ⟨h.initial, h.contains, h.since⟩

theorem Earlier.makeBinding {initial defined : String → Bool} {registry : Registry σ}
    (h : Earlier initial registry defined) {name : String} (binding : Binding σ)
    (hname : registry.contains name = true ∨ Text.isPlainWord name = true) :
    Earlier initial (registry.makeBinding name binding) defined := by
  refine ⟨h.initial, ?_, ?_⟩
  · intro other hother
    exact (contains_makeBinding registry name binding other).mpr (Or.inr (h.contains other hother))
  · intro other hother
    rcases (contains_makeBinding registry name binding other).mp hother with rfl | hother
    · rcases hname with hcontains | hplain
      · exact h.since other hcontains
      · exact Or.inr hplain
    · exact h.since other hother

theorem Dated.compile {initial : String → Bool} {registry : Registry σ}
    (h : Dated initial registry) (hnames : GrouplessNames registry)
    (hinitial : ∀ name, initial name = true → registry.contains name = true) (source : String) :
    Dated initial (registry.compile source).2 := by
  have hkept := h.imp fun key tree ⟨defined, hearlier, htree⟩ =>
    (⟨defined, hearlier.compile source, htree⟩ : ∃ defined,
      Earlier initial (registry.compile source).2 defined ∧ tree = Cache.meaning defined key)
  refine Cache.All.compile hkept ?_ ?_ ?_
  · intro hdefined
    exact ⟨registry.contains, (earlier_contains hinitial).compile source,
      by simp [Cache.meaning, hdefined]⟩
  · intro hdefined
    refine ⟨registry.contains, (earlier_contains hinitial).compile source, ?_⟩
    rw [Cache.meaning_normalize hnames hdefined]
    simp [Cache.meaning, hdefined]
  · rintro tree hdefined ⟨defined, hearlier, htree⟩
    refine ⟨defined, hearlier, ?_⟩
    have hsource : defined source = false := by
      rw [Bool.eq_false_iff]
      intro hsource
      have hcontains : registry.contains source = true := hearlier.contains source hsource
      rw [hdefined] at hcontains
      cases hcontains
    rw [htree]
    exact Cache.meaning_normalize (fun name hname => hnames name (hearlier.contains name hname))
      hsource

theorem Dated.makeBinding {initial : String → Bool} {registry : Registry σ}
    (h : Dated initial registry) (name : String) (binding : Binding σ) :
    Dated initial (registry.makeBinding name binding) := by
  intro key parsed hentry
  rw [cache_makeBinding] at hentry
  split at hentry
  · next hkept =>
      rw [Bool.or_eq_true] at hkept
      obtain ⟨defined, hearlier, htree⟩ := h key parsed hentry
      exact ⟨defined, hearlier.makeBinding binding hkept, htree⟩
  · cases hentry

/-- Nothing but the bindings and the cache matters. -/
theorem Dated.frame {initial : String → Bool} {registry after : Registry σ}
    (h : Dated initial registry) (hbindings : after.bindings = registry.bindings)
    (hcache : after.cache = registry.cache) : Dated initial after := by
  intro key parsed hentry
  rw [hcache] at hentry
  obtain ⟨defined, hearlier, htree⟩ := h key parsed hentry
  have hcontains := contains_congr hbindings
  exact ⟨defined, ⟨hearlier.initial, by rw [hcontains]; exact hearlier.contains,
    by rw [hcontains]; exact hearlier.since⟩, htree⟩

theorem ReachableFrom.dated {options : Options} {state : σ} {registry : Registry σ}
    (h : ReachableFrom options state registry) (hnames : GrouplessNames registry) :
    Dated (new options state).contains registry := by
  refine (Steps.invariant (fun registry =>
    (∀ name, (new options state).contains name = true → registry.contains name = true) ∧
      (GrouplessNames registry → Dated (new options state).contains registry))
    ?_ ?_ ?_ h.steps ⟨fun _ hname => hname, fun _ => Cache.all_empty _⟩).2 hnames
  · rintro registry source ⟨hinitial, hdated⟩
    refine ⟨hinitial, fun hnames => ?_⟩
    exact (hdated hnames).compile hnames hinitial source
  · rintro registry name binding ⟨hinitial, hdated⟩
    have hgrow (other : String) (hother : registry.contains other = true) :
        (registry.makeBinding name binding).contains other = true :=
      (contains_makeBinding registry name binding other).mpr (Or.inr hother)
    refine ⟨fun other hother => hgrow other (hinitial other hother), fun hnames => ?_⟩
    exact (hdated fun other hother => hnames other (hgrow other hother)).makeBinding name binding
  · rintro registry after _ hbindings hcache ⟨hinitial, hdated⟩
    have hcontains := contains_congr hbindings
    refine ⟨by rwa [hcontains], fun hnames => ?_⟩
    rw [GrouplessNames, hcontains] at hnames
    exact (hdated hnames).frame hbindings hcache

/-- The tree of a text is what the text meant under some earlier names. -/
theorem ReachableFrom.exists_earlier {options : Options} {state : σ} {registry : Registry σ}
    (h : ReachableFrom options state registry) (hnames : GrouplessNames registry)
    (source : String) : ∃ defined, Earlier (new options state).contains registry defined ∧
      (registry.compile source).1.tree = Cache.meaning defined source := by
  have hdated : Dated (new options state).contains (registry.compile source).2 :=
    (h.compile source).dated hnames
  obtain ⟨defined, hearlier, htree⟩ :=
    hdated source _ (Cache.get?_compile_self registry.contains source registry.cache)
  exact ⟨defined, ⟨hearlier.initial, hearlier.contains, hearlier.since⟩, htree⟩

/-- Each entry is what its text means now. -/
def Faithful (registry : Registry σ) : Prop :=
  registry.cache.All fun key tree => tree = Cache.meaning registry.contains key

theorem Earlier.meaning_eq {initial defined : String → Bool} {registry : Registry σ}
    (h : Earlier initial registry defined)
    (hkeywords : ∀ name, name.toList ∈ keywords → registry.contains name = true →
      initial name = true) (source : String) :
    Cache.meaning defined source = Cache.meaning registry.contains source := by
  apply Cache.meaning_congr
  intro name
  by_cases hdefined : defined name = true
  · exact Or.inl (by rw [hdefined, h.contains name hdefined])
  · rw [Bool.not_eq_true] at hdefined
    by_cases hcontains : registry.contains name = true
    · refine Or.inr ⟨(h.since name hcontains).resolve_left (by simp [hdefined]), ?_⟩
      intro hkeyword
      rw [h.initial name (hkeywords name hkeyword hcontains)] at hdefined
      cases hdefined
    · rw [Bool.not_eq_true] at hcontains
      exact Or.inl (by rw [hdefined, hcontains])

/-- The entries of a reachable registry are what their texts mean now, if no name holds a
group and no keyword has become a name. -/
theorem ReachableFrom.faithful {options : Options} {state : σ} {registry : Registry σ}
    (h : ReachableFrom options state registry) (hnames : GrouplessNames registry)
    (hkeywords : ∀ name, name.toList ∈ keywords → registry.contains name = true →
      (new options state).contains name = true) : Faithful registry := by
  intro key parsed hentry
  obtain ⟨defined, hearlier, htree⟩ := h.dated hnames key parsed hentry
  rw [htree]
  exact hearlier.meaning_eq hkeywords key

theorem Faithful.compile {registry : Registry σ} (h : Faithful registry)
    (hnames : GrouplessNames registry) (source : String) :
    Faithful (registry.compile source).2 := by
  refine Cache.All.compile h ?_ ?_ ?_
  · intro hdefined
    simp [contains_compile, Cache.meaning, hdefined]
  · intro hdefined
    rw [contains_compile, Cache.meaning_normalize hnames hdefined]
    simp [Cache.meaning, hdefined]
  · intro tree hdefined htree
    rw [htree, contains_compile, Cache.meaning_normalize hnames hdefined]

/-- A registry with faithful entries returns what a text means. -/
theorem Faithful.tree_compile {registry : Registry σ} (h : Faithful registry)
    (hnames : GrouplessNames registry) (source : String) :
    (registry.compile source).1.tree = Cache.meaning registry.contains source :=
  h.compile hnames source source _
    (Cache.get?_compile_self registry.contains source registry.cache)

end Registry

end Switchboard
