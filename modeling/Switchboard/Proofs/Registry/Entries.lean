import Switchboard.Proofs.NormalForm
import Switchboard.Proofs.Reading
import Switchboard.Proofs.Registry.History

/-!
What stands in the compile cache. Compiling a text leaves it in the cache, under its
normal spelling as well unless it is a name, and leaves every other entry alone. A
property of single entries that these fills keep, and that bindings keep, is a
property of every tree that a registry can return.
-/

namespace Switchboard

variable {σ : Type}

namespace Cache

theorem get?_empty (key : String) : Cache.empty.get? key = none := rfl

theorem get?_add (source : String) (tree : Expr) (cache : Cache) (key : String) :
    (cache.add source tree).2.get? key =
      if source = key then some (cache.add source tree).1 else cache.get? key :=
  Table.get?_insert source key _ cache.entries

theorem get?_share (source : String) (parsed : Parsed) (cache : Cache) (key : String) :
    (cache.share source parsed).get? key =
      if source = key then some parsed else cache.get? key :=
  Table.get?_insert source key parsed cache.entries

theorem compile_of_cached {cache : Cache} {source : String} {parsed : Parsed}
    (h : cache.get? source = some parsed) (defined : String → Bool) :
    cache.compile defined source = (parsed, cache) := by
  rw [compile, h]

theorem compile_of_defined {cache : Cache} {source : String} (h : cache.get? source = none)
    {defined : String → Bool} (hdefined : defined source = true) :
    cache.compile defined source = cache.add source (.named source) := by
  rw [compile, h]
  exact if_pos hdefined

theorem compile_of_undefined {cache : Cache} {source : String} (h : cache.get? source = none)
    {defined : String → Bool} (hdefined : defined source = false) :
    cache.compile defined source =
      ((cache.compileNormal defined (Spelling.normalize source)).1,
        (cache.compileNormal defined (Spelling.normalize source)).2.share source
          (cache.compileNormal defined (Spelling.normalize source)).1) := by
  rw [compile, h]
  exact if_neg (by simp [hdefined])

theorem get?_compileNormal (defined : String → Bool) (normalized : String) (cache : Cache) :
    (cache.compileNormal defined normalized).2.get? normalized =
      some (cache.compileNormal defined normalized).1 := by
  rw [compileNormal]
  split
  · next parsed hcached => exact hcached
  · rw [get?_add, if_pos rfl]

/-- A text that has been compiled is in the cache. -/
theorem get?_compile_self (defined : String → Bool) (source : String) (cache : Cache) :
    (cache.compile defined source).2.get? source = some (cache.compile defined source).1 := by
  cases hcached : cache.get? source with
  | some parsed => rw [compile_of_cached hcached, hcached]
  | none =>
      by_cases hdefined : defined source = true
      · rw [compile_of_defined hcached hdefined, get?_add, if_pos rfl]
      · rw [Bool.not_eq_true] at hdefined
        rw [compile_of_undefined hcached hdefined, get?_share, if_pos rfl]

/-- What is in the cache stays there under its text. -/
theorem get?_compile_of_cached {cache : Cache} {key : String} {parsed : Parsed}
    (h : cache.get? key = some parsed) (defined : String → Bool) (source : String) :
    (cache.compile defined source).2.get? key = some parsed := by
  cases hcached : cache.get? source with
  | some other => rw [compile_of_cached hcached, h]
  | none =>
      have hne : source ≠ key := by
        rintro rfl
        rw [h] at hcached
        cases hcached
      by_cases hdefined : defined source = true
      · rw [compile_of_defined hcached hdefined, get?_add, if_neg hne, h]
      · rw [Bool.not_eq_true] at hdefined
        rw [compile_of_undefined hcached hdefined, get?_share, if_neg hne, compileNormal]
        split
        · exact h
        · next hnormal =>
            rw [get?_add, if_neg, h]
            rintro rfl
            rw [h] at hnormal
            cases hnormal

/-- A text that is no name is kept under its normal spelling too. -/
theorem get?_compile_normalize {cache : Cache} {source : String} (h : cache.get? source = none)
    {defined : String → Bool} (hdefined : defined source = false) :
    (cache.compile defined source).2.get? (Spelling.normalize source) =
      some (cache.compile defined source).1 := by
  rw [compile_of_undefined h hdefined, get?_share]
  split
  · rfl
  · exact get?_compileNormal defined _ cache

/-- Every entry of the cache is good. -/
def All (good : String → Expr → Prop) (cache : Cache) : Prop :=
  ∀ key parsed, cache.get? key = some parsed → good key parsed.tree

theorem all_empty (good : String → Expr → Prop) : All good .empty := by
  intro key parsed h
  cases h

theorem All.imp {good better : String → Expr → Prop} {cache : Cache} (h : All good cache)
    (himp : ∀ key tree, good key tree → better key tree) : All better cache :=
  fun key parsed hentry => himp key parsed.tree (h key parsed hentry)

/-- Compiling keeps all entries good if names are good as themselves, if normal
spellings are good as they are read, and if other texts are good as their normal
spelling is. -/
theorem All.compile {good : String → Expr → Prop} {defined : String → Bool} {source : String}
    {cache : Cache} (h : All good cache)
    (hname : defined source = true → good source (.named source))
    (hparse : defined source = false →
      good (Spelling.normalize source) (Parser.parse defined (Spelling.normalize source)))
    (hshare : ∀ tree, defined source = false → good (Spelling.normalize source) tree →
      good source tree) : All good (cache.compile defined source).2 := by
  cases hcached : cache.get? source with
  | some parsed => rwa [compile_of_cached hcached]
  | none =>
      intro key parsed hentry
      by_cases hdefined : defined source = true
      · rw [compile_of_defined hcached hdefined, get?_add] at hentry
        split at hentry
        · next hkey =>
            cases hentry
            rw [← hkey]
            exact hname hdefined
        · exact h key parsed hentry
      · rw [Bool.not_eq_true] at hdefined
        have hnormal : All good (cache.compileNormal defined (Spelling.normalize source)).2 := by
          intro key parsed hentry
          rw [compileNormal] at hentry
          split at hentry
          · exact h key parsed hentry
          · rw [get?_add] at hentry
            split at hentry
            · next hkey =>
                cases hentry
                rw [← hkey]
                exact hparse hdefined
            · exact h key parsed hentry
        rw [compile_of_undefined hcached hdefined, get?_share] at hentry
        split at hentry
        · next hkey =>
            cases hentry
            rw [← hkey]
            exact hshare _ hdefined (hnormal _ _ (get?_compileNormal defined _ cache))
        · exact hnormal key parsed hentry

end Cache

namespace Registry

theorem options_compile (registry : Registry σ) (source : String) :
    (registry.compile source).2.options = registry.options := rfl

theorem bindings_compile (registry : Registry σ) (source : String) :
    (registry.compile source).2.bindings = registry.bindings := rfl

theorem contains_compile (registry : Registry σ) (source : String) :
    (registry.compile source).2.contains = registry.contains := rfl

/-- A text that is in the cache is compiled without a trace. -/
theorem compile_of_cached {registry : Registry σ} {source : String} {parsed : Parsed}
    (h : registry.cache.get? source = some parsed) :
    registry.compile source = (parsed, registry) := by
  rw [compile, Cache.compile_of_cached h]

theorem contains_makeBinding (registry : Registry σ) (name : String) (binding : Binding σ)
    (other : String) :
    (registry.makeBinding name binding).contains other = true ↔
      other = name ∨ registry.contains other = true := by
  have hinsert : Table.contains other (Table.insert name binding registry.bindings) = true ↔
      other = name ∨ registry.contains other = true := by
    rw [Table.contains, Table.get?_insert, contains, Table.contains]
    by_cases hname : name = other
    · simp [hname]
    · simp [hname, Ne.symm hname]
  rw [makeBinding]
  split <;> exact hinsert

theorem bindings_makeBinding (registry : Registry σ) (name : String) (binding : Binding σ) :
    (registry.makeBinding name binding).bindings =
      Table.insert name binding registry.bindings := by
  rw [makeBinding]
  split <;> rfl

theorem options_makeBinding (registry : Registry σ) (name : String) (binding : Binding σ) :
    (registry.makeBinding name binding).options = registry.options := by
  rw [makeBinding]
  split <;> rfl

theorem hook_makeBinding (registry : Registry σ) (name : String) (binding : Binding σ) :
    (registry.makeBinding name binding).hook = registry.hook := by
  rw [makeBinding]
  split <;> rfl

theorem cache_makeBinding (registry : Registry σ) (name : String) (binding : Binding σ) :
    (registry.makeBinding name binding).cache =
      if registry.contains name || Text.isPlainWord name then registry.cache
      else registry.cache.clear := by
  rw [makeBinding]
  split <;> rfl

/-- A checked registry is the registry itself, or the one that has compiled the text
of an alias. -/
theorem bindFault?_snd (registry : Registry σ) (overriding : Bool) (name : String)
    (binding : Binding σ) : (registry.bindFault? overriding name binding).2 = registry ∨
      ∃ source, (registry.bindFault? overriding name binding).2 = (registry.compile source).2 := by
  unfold bindFault?
  split
  · exact Or.inl rfl
  · split
    · exact Or.inl rfl
    · rcases binding with test | source
      · exact Or.inl rfl
      · simp only [aliasObjection?]
        split
        · exact Or.inl rfl
        · exact Or.inr ⟨source, rfl⟩

/-- An invariant of settings, names and cache that is kept when a text is compiled and when
a name is bound is kept by all steps. -/
theorem Steps.invariant {registry after : Registry σ} (good : Registry σ → Prop)
    (hcompile : ∀ registry source, good registry → good (registry.compile source).2)
    (hbind : ∀ registry name binding, good registry →
      good (registry.makeBinding name binding))
    (hframe : ∀ registry after : Registry σ, after.options = registry.options →
      after.bindings = registry.bindings → after.cache = registry.cache →
      good registry → good after)
    (h : Steps registry after) (hgood : good registry) : good after := by
  induction h with
  | refl => exact hgood
  | @tail registry _ _ hlast ih =>
      cases hlast with
      | compile source => exact hcompile registry source ih
      | bind checked overriding name binding hcheck =>
          apply hbind
          have hchecked := bindFault?_snd registry overriding name binding
          rw [hcheck] at hchecked
          rcases hchecked with heq | ⟨source, heq⟩
          · rwa [← show checked = registry from heq] at ih
          · rw [show checked = (registry.compile source).2 from heq]
            exact hcompile registry source ih
      | consult fault => exact hframe registry _ rfl rfl rfl ih
      | write state => exact hframe registry _ rfl rfl rfl ih
      | setHook hook => exact hframe registry _ rfl rfl rfl ih

/-- The settings of a registry never change. -/
theorem Steps.options_eq {registry after : Registry σ} (h : Steps registry after) :
    after.options = registry.options := by
  refine Steps.invariant (fun later => later.options = registry.options) ?_ ?_ ?_ h rfl
  · intro later source hgood
    rw [options_compile, hgood]
  · intro later name binding hgood
    rw [options_makeBinding, hgood]
  · intro later after hoptions _ _ hgood
    rw [hoptions, hgood]

theorem contains_congr {registry after : Registry σ}
    (h : after.bindings = registry.bindings) : after.contains = registry.contains := by
  funext name
  rw [contains, contains, h]

/-- No name is ever lost. -/
theorem Steps.contains {registry after : Registry σ} (h : Steps registry after) {name : String}
    (hname : registry.contains name = true) : after.contains name = true := by
  refine Steps.invariant (fun later => later.contains name = true) ?_ ?_ ?_ h hname
  · intro later source hgood
    exact hgood
  · intro later other binding hgood
    exact (contains_makeBinding later other binding name).mpr (Or.inr hgood)
  · intro later after _ hbindings _ hgood
    rwa [contains_congr hbindings]

theorem ReachableFrom.options_eq {options : Options} {state : σ} {registry : Registry σ}
    (h : ReachableFrom options state registry) : registry.options = options :=
  Steps.options_eq h.steps

theorem ReachableFrom.contains_of_new {options : Options} {state : σ} {registry : Registry σ}
    (h : ReachableFrom options state registry) {name : String}
    (hname : (new options state).contains name = true) : registry.contains name = true :=
  Steps.contains h.steps hname

theorem ReachableFrom.compile {options : Options} {state : σ} {registry : Registry σ}
    (h : ReachableFrom options state registry) (source : String) :
    ReachableFrom options state (registry.compile source).2 :=
  h.tail (.compile registry source)

end Registry

end Switchboard
