import Switchboard.Proofs.Marks
import Switchboard.Proofs.Printing.Weighing
import Switchboard.Proofs.Registry.Precedence

/-!
Placeholders in the trees of a registry. A tree that a registry returns is a registered name, or
it has been read from the normal spelling of its text under the names of some earlier time.
Spelling and names bring no marks of their own. So for a text without marks it is decided by the
text alone whether a placeholder can be seen in its tree: by what stands beside the placeholders
in the flat texts that are read, whatever is registered and whatever has been compiled before.
-/

namespace Switchboard

open Text
open Switchboard.Groups (Unmarked)
open Switchboard.Parser (Clean Alone)

namespace Spelling

/-- Spelling out brings blanks and letters only. -/
theorem notMem_spellOut {text : List Char} {c : Char} (hblank : isBlank c = false)
    (hplain : isPlain c = false) (h : c ∉ text) : c ∉ spellOut text := by
  have hspace : c ≠ ' ' := by
    rintro rfl
    exact absurd hblank (by decide)
  have hletter {letter : Char} (hword : isPlain letter = true) : c ≠ letter := by
    rintro rfl
    rw [hplain] at hword
    cases hword
  fun_induction spellOut text with
  | case1 rest ih =>
      simp only [List.mem_cons, not_or] at h ⊢
      exact ⟨hspace, hletter rfl, hletter rfl, hspace, ih h.2.2⟩
  | case2 rest ih =>
      simp only [List.mem_cons, not_or] at h ⊢
      exact ⟨hspace, hletter rfl, hletter rfl, hletter rfl, hspace, ih h.2.2⟩
  | case3 rest ih =>
      simp only [List.mem_cons, not_or] at h ⊢
      exact ⟨hspace, hletter rfl, hletter rfl, hletter rfl, hspace, ih h.2⟩
  | case4 rest ih =>
      simp only [List.mem_cons, not_or] at h ⊢
      exact ⟨hspace, hletter rfl, hletter rfl, hletter rfl, hletter rfl, hletter rfl, hspace,
        ih h.2.2⟩
  | case5 d rest _ _ _ _ ih =>
      simp only [List.mem_cons, not_or] at h ⊢
      exact ⟨h.1, ih h.2⟩
  | case6 => exact h

theorem unmarked_normalChars {text : List Char} (h : Unmarked text) :
    Unmarked (normalChars text) := by
  have hmark {mark : Char} (hblank : isBlank mark = false) (hplain : isPlain mark = false)
      (hmem : mark ∉ text) : mark ∉ normalChars text := by
    rw [normalChars, mem_weigh hblank]
    exact notMem_spellOut hblank hplain hmem
  exact ⟨hmark (by decide) (by decide) h.1, hmark (by decide) (by decide) h.2⟩

end Spelling

namespace Registry

variable {σ : Type} {options : Options} {state : σ} {registry : Registry σ} {source : String}

/-- A tree that is a registered name, or what the normal spelling of a text meant when no other
names were registered than now. -/
def ReadFrom (registry : Registry σ) (source : String) (tree : Expr) : Prop :=
  (∃ name, registry.contains name = true ∧ tree = .named name) ∨
    ∃ defined : String → Bool, (∀ name, defined name = true → registry.contains name = true) ∧
      tree = Parser.parse defined (Spelling.normalize source)

theorem ReadFrom.mono {after : Registry σ} {tree : Expr} (h : registry.ReadFrom source tree)
    (hmore : ∀ name, registry.contains name = true → after.contains name = true) :
    after.ReadFrom source tree := by
  rcases h with ⟨name, hname, htree⟩ | ⟨defined, hdefined, htree⟩
  · exact Or.inl ⟨name, hmore name hname, htree⟩
  · exact Or.inr ⟨defined, fun name hname => hmore name (hdefined name hname), htree⟩

/-- Every tree in the cache has been read from its text. -/
def Readings (registry : Registry σ) : Prop :=
  registry.cache.All registry.ReadFrom

theorem Readings.compile (h : Readings registry) (source : String) :
    Readings (registry.compile source).2 := by
  refine Cache.All.compile h ?_ ?_ ?_
  · intro hdefined
    exact Or.inl ⟨source, hdefined, rfl⟩
  · intro _
    refine Or.inr ⟨registry.contains, fun _ hname => hname, ?_⟩
    rw [Spelling.normalize_normalize]
  · intro tree _ htree
    rcases htree with hname | ⟨defined, hdefined, htree⟩
    · exact Or.inl hname
    · rw [Spelling.normalize_normalize] at htree
      exact Or.inr ⟨defined, hdefined, htree⟩

theorem Readings.makeBinding (h : Readings registry) (name : String) (binding : Binding σ) :
    Readings (registry.makeBinding name binding) := by
  intro key parsed hentry
  rw [cache_makeBinding] at hentry
  split at hentry
  · apply (h key parsed hentry).mono
    intro other hother
    exact (contains_makeBinding registry name binding other).mpr (Or.inr hother)
  · cases hentry

theorem ReachableFrom.readings (h : ReachableFrom options state registry) :
    Readings registry := by
  apply Steps.invariant Readings _ _ _ h.steps (Cache.all_empty _)
  · intro registry source hgood
    exact hgood.compile source
  · intro registry name binding hgood
    exact hgood.makeBinding name binding
  · intro registry after _ hbindings hcache hgood key parsed hentry
    rw [hcache] at hentry
    apply (hgood key parsed hentry).mono
    simp [contains_congr hbindings]

/-- In a registry without marks in its names, the tree of a text without marks has none in its
names if and only if it is a registered name or no placeholder is glued to a name: in each flat
text that is read for it, nothing but `not` stands before a placeholder and nothing but `array`
behind it, up to the nearest `or`, `and` or end. -/
theorem clean_compile_iff (hreach : ReachableFrom options state registry)
    (hnames : ∀ name, registry.contains name = true → Unmarked name.toList)
    (hsource : Unmarked source.toList) :
    (∀ name ∈ (registry.compile source).1.tree.names, Unmarked name.toList) ↔
      (∃ name, registry.contains name = true ∧ (registry.compile source).1.tree = .named name) ∨
        ∀ flat ∈ Groups.flats 0 (Spelling.normalize source).toList, Alone flat := by
  have hentry := Cache.get?_compile_self registry.contains source registry.cache
  have hread : registry.ReadFrom source (registry.compile source).1.tree :=
    (hreach.compile source).readings source _ hentry
  rcases hread with ⟨name, hname, htree⟩ | ⟨defined, hdefined, htree⟩
  · apply iff_of_true _ (Or.inl ⟨name, hname, htree⟩)
    rw [htree]
    simpa [Expr.names] using hnames name hname
  · have hnormal : Unmarked (Spelling.normalize source).toList := by
      rw [Spelling.toList_normalize]
      exact Spelling.unmarked_normalChars hsource
    have htrim : trim (Spelling.normalize source).toList = (Spelling.normalize source).toList := by
      rw [Spelling.toList_normalize]
      exact trim_of_trimmed (Spelling.trimmed_normalChars _)
    have hline : '\n' ∉ (Spelling.normalize source).toList := by
      rw [Spelling.toList_normalize]
      exact Spelling.lineFeed_notMem_weigh _
    have hclean := Parser.clean_parse_iff (fun name hname => hnames name (hdefined name hname))
      hline hnormal
    rw [← htree, htrim] at hclean
    refine ⟨fun h => Or.inr (hclean.mp h), ?_⟩
    rintro (⟨name, hname, hnamed⟩ | halone)
    · rw [hnamed]
      simpa [Expr.names] using hnames name hname
    · exact hclean.mpr halone

theorem unmarked_of_contains_new {name : String} (h : (new options state).contains name = true) :
    Unmarked name.toList :=
  ⟨Parser.notMem_of_isPlainWord (isPlainWord_of_contains_new h) (by decide),
    Parser.notMem_of_isPlainWord (isPlainWord_of_contains_new h) (by decide)⟩

/-- The group of `(string or number)[]` is used up: what is left of the text is its placeholder
with `array` behind it. -/
theorem clean_compile_list :
    ((new .standard ()).compile "(string or number)[]").1.tree =
        .arrayOf (.or (.named "string") (.named "number")) ∧
      ∀ flat ∈ Groups.flats 0 (Spelling.normalize "(string or number)[]").toList, Alone flat := by
  have htree : ((new .standard ()).compile "(string or number)[]").1.tree =
      .arrayOf (.or (.named "string") (.named "number")) := by decide +kernel
  have hclean := @clean_compile_iff Unit .standard () _ "(string or number)[]" .refl
    (fun _ => unmarked_of_contains_new) (by decide)
  rw [htree] at hclean
  have hnames : ∀ name ∈ ["string", "number"], Unmarked name.toList := by decide
  refine ⟨htree, (hclean.mp hnames).resolve_left ?_⟩
  rintro ⟨name, _, hnamed⟩
  cases hnamed

/-- The group of `x (string)` is glued to the word before it: the tree is one name with a
placeholder in it, though there is no mark in the text or in any registered name. -/
theorem compile_glued :
    (∀ name, (new .standard ()).contains name = true → Unmarked name.toList) ∧
      Unmarked "x (string)".toList ∧
      ((new .standard ()).compile "x (string)").1.tree =
        .named (String.ofList ('x' :: ' ' :: Groups.placeholder 0)) ∧
      ¬ ∀ name ∈ ((new .standard ()).compile "x (string)").1.tree.names,
        Unmarked name.toList := by
  have htree : ((new .standard ()).compile "x (string)").1.tree =
      .named (String.ofList ('x' :: ' ' :: Groups.placeholder 0)) := by decide +kernel
  refine ⟨fun _ => unmarked_of_contains_new, by decide, htree, ?_⟩
  rw [htree]
  simp [Expr.names, Unmarked, Groups.placeholder]

end Registry

end Switchboard
