import Switchboard.Proofs.Registry.Agreement

/-!
What a registry reads, and which names refer to which. The reading of a text is the tree
that compiling it returns now. As long as no name holds a group, compiling any text
changes the reading of none: a cached tree stays, and a tree that enters the cache is the
one its text had. An alias refers to the names in the reading of its text.
-/

namespace Switchboard.Registry

variable {σ : Type} {registry : Registry σ}

open Switchboard.Spelling (normalize)

/-- The tree that a text compiles to. -/
def reading (registry : Registry σ) (source : String) : Expr :=
  (registry.compile source).1.tree

/-- Nothing but the bindings and the cache matters. -/
theorem reading_congr {after : Registry σ} (hbindings : after.bindings = registry.bindings)
    (hcache : after.cache = registry.cache) (source : String) :
    after.reading source = registry.reading source := by
  rw [reading, reading, compile, compile, contains_congr hbindings, hcache]

theorem reading_of_cached {source : String} {parsed : Parsed}
    (h : registry.cache.get? source = some parsed) : registry.reading source = parsed.tree := by
  rw [reading, compile_of_cached h]

theorem reading_of_contains {source : String} (h : registry.cache.get? source = none)
    (hname : registry.contains source = true) : registry.reading source = .named source := by
  rw [reading, compile, Cache.compile_of_defined h hname]
  rfl

/-- A text that is neither cached nor a name has the tree of its normal spelling. -/
theorem reading_of_uncached {source : String} (h : registry.cache.get? source = none)
    (hname : registry.contains source = false) :
    registry.reading source =
      ((registry.cache.get? (normalize source)).map Parsed.tree).getD
        (Parser.parse registry.contains (normalize source)) := by
  rw [reading, compile, Cache.compile_of_undefined h hname, Cache.compileNormal]
  dsimp only
  split
  · next hcached => rw [hcached]; rfl
  · next hcached => rw [hcached]; rfl

/-- A text that is cached neither itself nor under its normal spelling reads as it means. -/
theorem reading_eq_meaning {source : String} (h : registry.cache.get? source = none)
    (hnormal : registry.cache.get? (normalize source) = none) :
    registry.reading source = Cache.meaning registry.contains source := by
  by_cases hname : registry.contains source = true
  · rw [reading_of_contains h hname]
    simp [Cache.meaning, hname]
  · rw [Bool.not_eq_true] at hname
    rw [reading_of_uncached h hname, hnormal]
    simp [Cache.meaning, hname]

/-- A text that is neither cached nor a name reads like its normal spelling. -/
theorem reading_normalize (hnames : GrouplessNames registry) {source : String}
    (h : registry.cache.get? source = none) (hname : registry.contains source = false) :
    registry.reading (normalize source) = registry.reading source := by
  rw [reading_of_uncached h hname]
  cases hcached : registry.cache.get? (normalize source) with
  | some parsed => exact reading_of_cached hcached
  | none =>
      rw [Option.map_none, Option.getD_none]
      by_cases hnormal : registry.contains (normalize source) = true
      · rw [reading_of_contains hcached hnormal,
          Parser.parse_of_defined hnormal (hnames _ hnormal)]
        rw [Spelling.toList_normalize]
        exact Spelling.trimmed_normalChars _
      · rw [Bool.not_eq_true] at hnormal
        rw [reading_of_uncached hcached hnormal, Spelling.normalize_normalize, hcached]
        rfl

/-- Every entry that compiling a text leaves is what its text was read as before. -/
theorem all_compile_reading (hnames : GrouplessNames registry) (source : String) :
    (registry.compile source).2.cache.All fun key tree => tree = registry.reading key := by
  intro key parsed hentry
  change (registry.cache.compile registry.contains source).2.get? key = some parsed at hentry
  have hold {key : String} {parsed : Parsed} (hentry : registry.cache.get? key = some parsed) :
      parsed.tree = registry.reading key := (reading_of_cached hentry).symm
  cases hcached : registry.cache.get? source with
  | some _ =>
      rw [Cache.compile_of_cached hcached] at hentry
      exact hold hentry
  | none =>
      by_cases hsource : source = key
      · rw [← hsource, Cache.get?_compile_self] at hentry
        cases hentry
        rw [← hsource]
        rfl
      · by_cases hname : registry.contains source = true
        · rw [Cache.compile_of_defined hcached hname, Cache.get?_add, if_neg hsource] at hentry
          exact hold hentry
        · rw [Bool.not_eq_true] at hname
          by_cases hnormal : normalize source = key
          · rw [← hnormal, Cache.get?_compile_normalize hcached hname] at hentry
            cases hentry
            rw [← hnormal, reading_normalize hnames hcached hname]
            rfl
          · rw [Cache.compile_of_undefined hcached hname, Cache.get?_share, if_neg hsource,
              Cache.compileNormal] at hentry
            split at hentry
            · exact hold hentry
            · rw [Cache.get?_add, if_neg hnormal] at hentry
              exact hold hentry

/-- Compiling a text changes no reading. -/
theorem reading_compile (hnames : GrouplessNames registry) (source other : String) :
    (registry.compile source).2.reading other = registry.reading other := by
  have hentries := all_compile_reading hnames source
  have hfresh {key : String} (h : (registry.compile source).2.cache.get? key = none) :
      registry.cache.get? key = none := by
    by_contra hsome
    obtain ⟨parsed, hparsed⟩ := Option.ne_none_iff_exists'.mp hsome
    have hkept := Cache.get?_compile_of_cached hparsed registry.contains source
    exact absurd (h.symm.trans hkept) (by simp)
  cases hcached : (registry.compile source).2.cache.get? other with
  | some parsed =>
      rw [reading_of_cached hcached]
      exact hentries other parsed hcached
  | none =>
      by_cases hname : registry.contains other = true
      · rw [reading_of_contains hcached hname, reading_of_contains (hfresh hcached) hname]
      · rw [Bool.not_eq_true] at hname
        rw [reading_of_uncached hcached hname]
        cases hnormal : (registry.compile source).2.cache.get? (normalize other) with
        | some parsed =>
            rw [← reading_normalize hnames (hfresh hcached) hname]
            exact hentries _ parsed hnormal
        | none =>
            rw [reading_of_uncached (hfresh hcached) hname, hfresh hnormal]
            rfl

/-- A name that is bound to an alias. -/
def IsAlias (registry : Registry σ) (name : String) : Prop :=
  ∃ source, Table.get? name registry.bindings = some (.alias source)

/-- An alias refers to the names in the reading of its text. -/
def Refers (registry : Registry σ) (name other : String) : Prop :=
  ∃ source, Table.get? name registry.bindings = some (.alias source) ∧
    other ∈ (registry.reading source).names

theorem contains_of_get? {name : String} {binding : Binding σ}
    (h : Table.get? name registry.bindings = some binding) : registry.contains name = true := by
  rw [contains, Table.contains, h]
  rfl

/-- A built-in alias refers to built-in names that stand before it. -/
theorem of_refers_new {options : Options} {state : σ} {name other : String}
    (h : (new options state).Refers name other) :
    other ∈ builtinNames ∧ builtinNames.idxOf other < builtinNames.idxOf name := by
  obtain ⟨source, hsource, hother⟩ := h
  have hbuiltins := ((contains_new_iff options state name).mp (contains_of_get? hsource)).1
  have hnames : (new options state).contains = fun name => decide (name ∈ builtinNames) := by
    funext name
    rw [Bool.eq_iff_iff, contains_new_iff, decide_eq_true_eq]
    exact and_iff_right hbuiltins
  rw [reading_eq_meaning rfl rfl, hnames] at hother
  have hmem : (name, .alias source) ∈ (builtins : List (String × Binding σ)) := by
    have hmem := mem_of_get? hsource
    rwa [new, if_pos hbuiltins] at hmem
  simp only [builtins, List.mem_cons, List.not_mem_nil, or_false, Prod.mk.injEq,
    Binding.alias.injEq, reduceCtorEq, and_false, false_or] at hmem
  revert other
  rcases hmem with ⟨rfl, rfl⟩ | ⟨rfl, rfl⟩ | ⟨rfl, rfl⟩ | ⟨rfl, rfl⟩ | ⟨rfl, rfl⟩ | ⟨rfl, rfl⟩ |
    ⟨rfl, rfl⟩ <;> decide +kernel

end Switchboard.Registry
