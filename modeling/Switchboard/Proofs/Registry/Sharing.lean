import Switchboard.Proofs.Rule.Routing

/-!
Spellings that share a parse. A text that is no name is kept with the tree of its normal
spelling, and each parse has a number of its own; so two texts have the same tree, not only
equal ones, just when they are spellings of one text. Names grow and never vanish, and a
definition either keeps every tree or drops them all, so this holds at every state of a
registry, in whatever order texts were compiled and names bound.
-/

namespace Switchboard

variable {σ : Type}

open Spelling (normalize normalize_normalize)

namespace Cache

/-- How the texts of a cache hold its trees, given which texts are names. -/
structure Shares (defined : String → Bool) (cache : Cache) : Prop where
  /-- A text that is no name has the tree of its normal spelling. -/
  normal : ∀ key parsed, cache.get? key = some parsed → defined key = false →
    cache.get? (normalize key) = some parsed
  /-- No tree has a number that is still to be given. -/
  given : ∀ key parsed, cache.get? key = some parsed → parsed.serial < cache.nextSerial
  /-- Only spellings of one text have trees of one number, and then it is one tree. -/
  own : ∀ key other parsed found, cache.get? key = some parsed → cache.get? other = some found →
    parsed.serial = found.serial → parsed = found ∧ normalize key = normalize other

theorem shares_of_entries_eq_nil {cache : Cache} (h : cache.entries = [])
    (defined : String → Bool) : cache.Shares defined := by
  have hnone (key : String) : cache.get? key = none := by
    rw [get?, h]
    rfl
  exact
    { normal := fun key parsed hkey => by
        rw [hnone] at hkey
        cases hkey
      given := fun key parsed hkey => by
        rw [hnone] at hkey
        cases hkey
      own := fun key other parsed found hkey => by
        rw [hnone] at hkey
        cases hkey }

/-- A text that is no name any more has never been one. -/
theorem Shares.mono {defined grown : String → Bool} {cache : Cache} (h : cache.Shares defined)
    (hgrown : ∀ name, grown name = false → defined name = false) : cache.Shares grown :=
  { h with normal := fun key parsed hkey hname => h.normal key parsed hkey (hgrown key hname) }

/-- A new tree comes under a name or under a normal spelling. -/
theorem Shares.add {defined : String → Bool} {cache : Cache} (h : cache.Shares defined)
    {source : String} (hnew : cache.get? source = none)
    (hsource : defined source = true ∨ normalize source = source) (tree : Expr) :
    (cache.add source tree).2.Shares defined := by
  have hcases {key : String} {parsed : Parsed}
      (hkey : (cache.add source tree).2.get? key = some parsed) :
      (source = key ∧ parsed = ⟨tree, cache.nextSerial⟩) ∨ cache.get? key = some parsed := by
    rw [get?_add] at hkey
    split at hkey
    · next heq => exact Or.inl ⟨heq, (Option.some.inj hkey).symm⟩
    · exact Or.inr hkey
  refine ⟨fun key parsed hkey hname => ?_, fun key parsed hkey => ?_,
    fun key other parsed found hkey hother hserial => ?_⟩
  · rcases hcases hkey with ⟨rfl, rfl⟩ | hold
    · rcases hsource with hdefined | hnormal
      · rw [hdefined] at hname
        cases hname
      · rw [hnormal]
        exact hkey
    · have hnormal := h.normal key parsed hold hname
      rwa [get?_add, if_neg]
      rintro rfl
      rw [hnew] at hnormal
      cases hnormal
  · rcases hcases hkey with ⟨_, rfl⟩ | hold
    · exact Nat.lt_succ_self cache.nextSerial
    · exact Nat.lt_succ_of_lt (h.given key parsed hold)
  · rcases hcases hkey with ⟨rfl, rfl⟩ | hold
    · rcases hcases hother with ⟨rfl, rfl⟩ | hold'
      · exact ⟨rfl, rfl⟩
      · exact absurd hserial (h.given other found hold').ne'
    · rcases hcases hother with ⟨rfl, rfl⟩ | hold'
      · exact absurd hserial (h.given key parsed hold).ne
      · exact h.own key other parsed found hold hold' hserial

/-- A tree is shared by a further spelling of its normal text. -/
theorem Shares.share {defined : String → Bool} {cache : Cache} (h : cache.Shares defined)
    {source : String} {parsed : Parsed} (hnormal : cache.get? (normalize source) = some parsed) :
    (cache.share source parsed).Shares defined := by
  -- what holds of the new text holds of its normal spelling already
  have hcases {key : String} {entry : Parsed}
      (hkey : (cache.share source parsed).get? key = some entry) :
      ∃ old, cache.get? old = some entry ∧ normalize old = normalize key := by
    rw [get?_share] at hkey
    split at hkey
    · next heq =>
        cases hkey
        exact ⟨normalize source, hnormal, by rw [normalize_normalize, heq]⟩
    · exact ⟨key, hkey, rfl⟩
  refine ⟨fun key entry hkey hname => ?_, fun key entry hkey => ?_,
    fun key other entry found hkey hother hserial => ?_⟩
  · rw [get?_share] at hkey ⊢
    split at hkey
    · next heq =>
        cases hkey
        subst heq
        split
        · rfl
        · exact hnormal
    · have hold := h.normal key entry hkey hname
      split
      · next heq =>
          rw [heq, normalize_normalize] at hnormal
          rw [← hnormal, hold]
      · exact hold
  · obtain ⟨old, hold, _⟩ := hcases hkey
    exact h.given old entry hold
  · obtain ⟨old, hold, heq⟩ := hcases hkey
    obtain ⟨old', hold', heq'⟩ := hcases hother
    rw [← heq, ← heq']
    exact h.own old old' entry found hold hold' hserial

theorem Shares.compileNormal {defined : String → Bool} {cache : Cache} (h : cache.Shares defined)
    (source : String) : (cache.compileNormal defined (normalize source)).2.Shares defined := by
  rw [Cache.compileNormal]
  split
  · exact h
  · next hnew => exact h.add hnew (Or.inr (normalize_normalize source)) _

theorem Shares.compile {defined : String → Bool} {cache : Cache} (h : cache.Shares defined)
    (source : String) : (cache.compile defined source).2.Shares defined := by
  cases hcached : cache.get? source with
  | some parsed => rwa [compile_of_cached hcached]
  | none =>
      by_cases hdefined : defined source = true
      · rw [compile_of_defined hcached hdefined]
        exact h.add hcached (Or.inl hdefined) _
      · rw [Bool.not_eq_true] at hdefined
        rw [compile_of_undefined hcached hdefined]
        exact (h.compileNormal source).share (get?_compileNormal defined _ cache)

/-- A text that is no name has the tree of its normal spelling as soon as it is compiled. -/
theorem Shares.get?_compile_normalize {defined : String → Bool} {cache : Cache}
    (h : cache.Shares defined) {source : String} (hsource : defined source = false) :
    (cache.compile defined source).2.get? (normalize source) =
      some (cache.compile defined source).1 :=
  (h.compile source).normal source _ (get?_compile_self defined source cache) hsource

/-- A text that is no name finds the tree of its normal spelling. -/
theorem Shares.compile_of_normal {defined : String → Bool} {cache : Cache}
    (h : cache.Shares defined) {source : String} {parsed : Parsed}
    (hnormal : cache.get? (normalize source) = some parsed) (hsource : defined source = false) :
    (cache.compile defined source).1 = parsed := by
  have hfound := h.get?_compile_normalize hsource
  rw [get?_compile_of_cached hnormal defined source] at hfound
  exact (Option.some.inj hfound).symm

theorem size_share_le (source : String) (parsed : Parsed) (cache : Cache) :
    (cache.share source parsed).size ≤ cache.size + 1 := by
  have hkeys := Table.keys_insert source parsed cache.entries
  have hlength : (Table.insert source parsed cache.entries).keys.length ≤
      cache.entries.keys.length + 1 := by
    rw [hkeys]
    split
    · exact Nat.le_succ _
    · rw [List.length_append, List.length_singleton]
  rwa [Table.keys, Table.keys, List.length_map, List.length_map] at hlength

theorem size_add_le (source : String) (tree : Expr) (cache : Cache) :
    (cache.add source tree).2.size ≤ cache.size + 1 :=
  size_share_le source ⟨tree, cache.nextSerial⟩ cache

/-- A text and its normal spelling are all that compiling adds. -/
theorem size_compile_le (defined : String → Bool) (source : String) (cache : Cache) :
    (cache.compile defined source).2.size ≤ cache.size + 2 := by
  have hnormal : (cache.compileNormal defined (normalize source)).2.size ≤ cache.size + 1 := by
    rw [compileNormal]
    split
    · exact Nat.le_succ _
    · exact size_add_le _ _ cache
  cases hcached : cache.get? source with
  | some parsed =>
      rw [compile_of_cached hcached]
      exact Nat.le_add_right _ 2
  | none =>
      by_cases hdefined : defined source = true
      · rw [compile_of_defined hcached hdefined]
        exact (size_add_le source _ cache).trans (Nat.le_succ _)
      · rw [Bool.not_eq_true] at hdefined
        rw [compile_of_undefined hcached hdefined]
        exact (size_share_le source _ _).trans (Nat.succ_le_succ hnormal)

end Cache

namespace Registry

/-! Drops -/

/-- Between two states a name was bound that drops the cache: a new one, and no plain word. -/
def Drops (registry after : Registry σ) : Prop :=
  ∃ name, registry.contains name = false ∧ Text.isPlainWord name = false ∧
    after.contains name = true

theorem not_drops_iff (registry after : Registry σ) :
    ¬ Drops registry after ↔ ∀ name, after.contains name = true →
      registry.contains name = true ∨ Text.isPlainWord name = true := by
  constructor
  · intro h name hname
    by_contra hother
    rw [not_or, Bool.not_eq_true, Bool.not_eq_true] at hother
    exact h ⟨name, hother.1, hother.2, hname⟩
  · rintro h ⟨name, hnew, hplain, hname⟩
    rcases h name hname with hold | hword
    · rw [hnew] at hold
      cases hold
    · rw [hplain] at hword
      cases hword

/-- A step that binds such a name leaves no tree. -/
theorem Step.entries_eq_nil_of_drops {registry after : Registry σ} (h : Step registry after)
    (hdrops : Drops registry after) : after.cache.entries = [] := by
  obtain ⟨other, hnew, hplain, hother⟩ := hdrops
  cases h with
  | bind checked overriding name binding h =>
      have hbindings := contains_congr (bindings_of_bindFault?_eq_none h)
      rcases (contains_makeBinding checked name binding other).mp hother with rfl | hold
      · rw [cache_makeBinding, hbindings, hnew, hplain]
        rfl
      · rw [hbindings, hnew] at hold
        cases hold
  | _ => exact absurd (hnew.symm.trans hother) Bool.false_ne_true

/-- Binding a name that is known or a plain word drops nothing. -/
theorem not_drops_makeBinding {registry checked : Registry σ} {overriding : Bool} {name : String}
    {binding : Binding σ} (h : registry.bindFault? overriding name binding = (none, checked))
    (hname : registry.contains name = true ∨ Text.isPlainWord name = true) :
    ¬ Drops registry (checked.makeBinding name binding) := by
  rw [not_drops_iff]
  intro other hother
  rcases (contains_makeBinding checked name binding other).mp hother with rfl | hold
  · exact hname
  · rw [contains_congr (bindings_of_bindFault?_eq_none h)] at hold
    exact Or.inl hold

/-- The cache is dropped between two states just when it is dropped by a step between them. -/
theorem Steps.not_drops_iff {registry later : Registry σ} (h : Steps registry later) :
    ¬ Drops registry later ↔
      Relation.ReflTransGen (fun before after => Step before after ∧ ¬ Drops before after)
        registry later := by
  constructor
  · intro hdrops
    induction h with
    | refl => exact .refl
    | @tail middle later hfirst hlast ih =>
        have hbefore : ¬ Drops registry middle := by
          rintro ⟨name, hnew, hplain, hname⟩
          exact hdrops ⟨name, hnew, hplain, Steps.contains (.single hlast) hname⟩
        have hafter : ¬ Drops middle later := by
          rintro ⟨name, hnew, hplain, hname⟩
          refine hdrops ⟨name, ?_, hplain, hname⟩
          rw [Bool.eq_false_iff]
          intro hold
          rw [Steps.contains hfirst hold] at hnew
          cases hnew
        exact (ih hbefore).tail ⟨hlast, hafter⟩
  · clear h
    intro hchain
    induction hchain with
    | refl =>
        rintro ⟨name, hnew, _, hname⟩
        exact absurd (hnew.symm.trans hname) Bool.false_ne_true
    | @tail middle later _ hlast ih =>
        rintro ⟨name, hnew, hplain, hname⟩
        by_cases hmiddle : middle.contains name = true
        · exact ih ⟨name, hnew, hplain, hmiddle⟩
        · exact hlast.2 ⟨name, Bool.not_eq_true _ ▸ hmiddle, hplain, hname⟩

/-! Sharing -/

theorem shares_makeBinding {registry : Registry σ} (h : registry.cache.Shares registry.contains)
    (name : String) (binding : Binding σ) :
    (registry.makeBinding name binding).cache.Shares
      (registry.makeBinding name binding).contains := by
  rw [cache_makeBinding]
  split
  · apply h.mono
    intro other hother
    rw [Bool.eq_false_iff] at hother ⊢
    exact fun hold => hother ((contains_makeBinding registry name binding other).mpr (Or.inr hold))
  · exact Cache.shares_of_entries_eq_nil rfl _

/-- Spellings share their parses at all times. -/
theorem Steps.shares {registry later : Registry σ} (h : Steps registry later)
    (hshares : registry.cache.Shares registry.contains) : later.cache.Shares later.contains := by
  refine Steps.invariant (fun registry => registry.cache.Shares registry.contains) ?_ ?_ ?_ h
    hshares
  · intro registry source hgood
    exact hgood.compile source
  · intro registry name binding hgood
    exact shares_makeBinding hgood name binding
  · intro registry after _ hbindings hcache hgood
    rwa [contains_congr hbindings, hcache]

/-- Compiling a text changes and removes no tree, adds at most two entries, and gives the text
a tree that it keeps until a definition drops the cache. Until then a text has the same tree,
if neither was a name, just when it is a spelling of the same text. -/
theorem compile_kept {options : Options} {state : σ} {registry built later : Registry σ}
    (hreach : Steps (new options state) registry) {source : String} {parsed : Parsed}
    (hcompile : registry.compile source = (parsed, built)) (hlater : Steps built later)
    (hdrops : ¬ Drops built later) :
    (∀ key entry, registry.cache.get? key = some entry → later.cache.get? key = some entry) ∧
      built.cachedExpressions ≤ registry.cachedExpressions + 2 ∧
      later.compile source = (parsed, later) ∧
      (registry.contains source = false → ∀ other, registry.contains other = false →
        ((later.compile other).1 = parsed ↔ normalize other = normalize source)) := by
  obtain ⟨rfl, rfl⟩ := Prod.mk.inj hcompile
  have hshares : registry.cache.Shares registry.contains :=
    hreach.shares (Cache.shares_of_entries_eq_nil rfl _)
  have hkept {key : String} {entry : Parsed}
      (hentry : (registry.compile source).2.cache.get? key = some entry) :
      later.cache.get? key = some entry :=
    hlater.get?_of_cached ((not_drops_iff _ later).mp hdrops) hentry
  have hself := hkept (Cache.get?_compile_self registry.contains source registry.cache)
  refine ⟨fun key entry hentry => ?_, ?_, ?_, fun hsource other hother => ?_⟩
  · exact hkept (Cache.get?_compile_of_cached hentry registry.contains source)
  · exact Cache.size_compile_le registry.contains source registry.cache
  · rw [compile, Cache.compile_of_cached hself]
    rfl
  · have hsharesLater : later.cache.Shares later.contains :=
      hlater.shares (hshares.compile source)
    constructor
    · intro hsame
      have hfound := Cache.get?_compile_self later.contains other later.cache
      have hstill := Cache.get?_compile_of_cached hself later.contains other
      exact ((hsharesLater.compile other).own other source _ _ hfound hstill
        (congrArg Parsed.serial hsame)).2
    · intro hsame
      have hnormal := hkept (hshares.get?_compile_normalize hsource)
      rw [← hsame] at hnormal
      by_cases hname : later.contains other = true
      · -- a name that has been bound since is a plain word, its own normal spelling
        rcases (not_drops_iff _ later).mp hdrops other hname with hold | hplain
        · exact absurd (hother.symm.trans hold) Bool.false_ne_true
        · rw [Spelling.normalize_of_isPlainWord hplain] at hnormal
          rw [compile, Cache.compile_of_cached hnormal]
          rfl
      · exact hsharesLater.compile_of_normal hnormal (Bool.not_eq_true _ ▸ hname)

/-- A spelling with operator signs and one with keywords, compiled before and after a plain
word is bound. -/
theorem compile_kept_operators :
    let registry : Registry Unit := new .standard ()
    let built := (registry.compile "string||number").2
    let later := (built.bindFault? false "text" (.alias "string")).2.makeBinding "text"
      (.alias "string")
    (later.compile " string  or number").1 = (registry.compile "string||number").1 := by
  intro registry built later
  have hcheck : built.bindFault? false "text" (.alias "string") =
      (none, (built.bindFault? false "text" (.alias "string")).2) :=
    Prod.ext (by decide +kernel) rfl
  have hstep : Step built later := .bind built _ false "text" (.alias "string") hcheck
  have hdrops : ¬ Drops built later := not_drops_makeBinding hcheck (Or.inr (by decide +kernel))
  have hcompile : registry.compile "string||number" =
      ((registry.compile "string||number").1, built) := rfl
  have hkept := compile_kept .refl hcompile (.single hstep) hdrops
  exact (hkept.2.2.2 (by decide +kernel) " string  or number" (by decide +kernel)).mpr
    (by decide +kernel)

end Registry

end Switchboard
