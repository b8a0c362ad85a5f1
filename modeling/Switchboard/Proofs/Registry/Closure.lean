import Switchboard.Proofs.Pruning
import Switchboard.Proofs.Registry.Aliases

/-!
Names that aliases refer to stay bound. An alias is checked once, against the tree its
text has then; later its text may be read anew under more names. Every later tree is the
checked one with parts cut away, where a text in it has become a name itself. So the names
of every alias are bound at any time, as long as no name holds a group.
-/

namespace Switchboard

variable {σ : Type}

open Switchboard.Parser (Narrows Indivisible)
open Switchboard.Groups (Groupless)
open Switchboard.Spelling (normalize)

namespace Cache

/-- Defining more names narrows what a text means. -/
theorem narrows_meaning {defined defined' : String → Bool} (hempty : defined' "" = false)
    (hgrow : ∀ name, defined name = true → defined' name = true) (source : String) :
    Narrows defined defined' (meaning defined source) (meaning defined' source) := by
  by_cases hnew : defined' source = true
  · rw [show meaning defined' source = .named source by simp [meaning, hnew]]
    by_cases hold : defined source = true
    · rw [show meaning defined source = .named source by simp [meaning, hold]]
      exact .refl _
    · rw [Bool.not_eq_true] at hold
      by_cases hwhole : Indivisible source
      · have hread : meaning defined source = Parser.parseTrimmed defined [] source.toList := by
          rw [meaning, hold, if_neg Bool.false_ne_true, hwhole.normal,
            Parser.parse_of_groupless hwhole.groupless, Parser.parseFlat,
            Text.trim_of_trimmed hwhole.trimmed]
        have hnarrows : Narrows defined defined' (Parser.parseTrimmed defined [] source.toList)
            (.named (String.ofList source.toList)) :=
          Parser.narrows_of_defined hempty (by rwa [String.ofList_toList]) []
        rwa [String.ofList_toList, ← hread] at hnarrows
      · exact Parser.narrows_named hold hnew hwhole _
  · have hold : defined source = false := by
      rw [Bool.eq_false_iff]
      exact fun hold => hnew (hgrow source hold)
    rw [Bool.not_eq_true] at hnew
    rw [show meaning defined' source = Parser.parse defined' (normalize source) by
      simp [meaning, hnew]]
    rw [show meaning defined source = Parser.parse defined (normalize source) by
      simp [meaning, hold]]
    exact Parser.narrows_parse hempty hgrow (normalize source)

end Cache

namespace Registry

variable {registry : Registry σ}

/-- A reading is what the text meant at an earlier time. -/
theorem Dated.exists_earlier {initial : String → Bool} (h : Dated initial registry)
    (hnames : GrouplessNames registry)
    (hinitial : ∀ name, initial name = true → registry.contains name = true) (source : String) :
    ∃ defined, Earlier initial registry defined ∧
      registry.reading source = Cache.meaning defined source := by
  obtain ⟨defined, hearlier, htree⟩ := h.compile hnames hinitial source source _
    (Cache.get?_compile_self registry.contains source registry.cache)
  exact ⟨defined, ⟨hearlier.initial, hearlier.contains, hearlier.since⟩, htree⟩

theorem of_nameObjection?_eq_none {name source : String} {names : List String}
    (h : registry.nameObjection? name source names = none) :
    ∀ other ∈ names, other ≠ name ∧ registry.contains other = true := by
  induction names with
  | nil => simp
  | cons referenced rest ih =>
      rw [nameObjection?] at h
      split at h
      · cases h
      · next hne =>
          split at h
          · next hbound => exact List.forall_mem_cons.mpr ⟨⟨hne, hbound⟩, ih h⟩
          · cases h

/-- A name that has been bound passed the check: it is not blank, it is new unless it may be
bound again, and all names of an alias are bound and other than the name itself. -/
theorem of_bindFault?_eq_none {checked : Registry σ} {overriding : Bool} {name : String}
    {binding : Binding σ}
    (h : registry.bindFault? overriding name binding = (none, checked)) :
    Text.isBlankText name = false ∧ (overriding = false → registry.contains name = false) ∧
      ((∃ test, binding = .test test ∧ checked = registry) ∨
        ∃ source, binding = .alias source ∧ checked = (registry.compile source).2 ∧
          ∀ other ∈ (registry.reading source).names,
            other ≠ name ∧ registry.contains other = true) := by
  unfold bindFault? at h
  split at h
  · cases h
  · next hblank =>
      split at h
      · cases h
      · next htaken =>
          refine ⟨Bool.eq_false_iff.mpr hblank, ?_, ?_⟩
          · rintro rfl
            simpa using htaken
          · rcases binding with test | source
            · cases h
              exact Or.inl ⟨test, rfl, rfl⟩
            · refine Or.inr ⟨source, rfl, ?_⟩
              simp only [aliasObjection?] at h
              split at h
              · cases h
              · rw [Prod.mk.injEq, Option.map_eq_none_iff] at h
                have hnames : (registry.compile source).2.nameObjection? name source
                    (registry.reading source).names = none := h.1
                refine ⟨h.2.symm, ?_⟩
                have hbound := of_nameObjection?_eq_none hnames
                rwa [contains_compile] at hbound

/-- The check of a binding changes no binding. -/
theorem bindings_of_bindFault?_eq_none {checked : Registry σ} {overriding : Bool} {name : String}
    {binding : Binding σ}
    (h : registry.bindFault? overriding name binding = (none, checked)) :
    checked.bindings = registry.bindings := by
  obtain ⟨_, _, ⟨_, _, rfl⟩ | ⟨_, _, rfl, _⟩⟩ := of_bindFault?_eq_none h <;> rfl

/-- What holds of a registry without groups in its names: it has kept its first names, none
is blank, its entries are dated, and all names that aliases refer to are bound. -/
structure Coherent (initial : String → Bool) (registry : Registry σ) : Prop where
  groupless : GrouplessNames registry
  kept : ∀ name, initial name = true → registry.contains name = true
  nonempty : registry.contains "" = false
  dated : Dated initial registry
  closed : ∀ name other, registry.Refers name other → registry.contains other = true

variable {initial : String → Bool}

/-- As long as the cache is kept, binding a name narrows every reading. -/
theorem narrows_reading_makeBinding {name : String} {binding : Binding σ}
    (hempty : (registry.makeBinding name binding).contains "" = false)
    (hkept : registry.contains name = true ∨ Text.isPlainWord name = true) (source : String) :
    Narrows registry.contains (registry.makeBinding name binding).contains
      (registry.reading source) ((registry.makeBinding name binding).reading source) := by
  have hcontains := contains_makeBinding registry name binding
  have hcache : (registry.makeBinding name binding).cache = registry.cache := by
    rw [cache_makeBinding, if_pos (by rwa [Bool.or_eq_true])]
  cases hcached : registry.cache.get? source with
  | some parsed =>
      rw [reading_of_cached hcached, reading_of_cached (by rwa [hcache])]
      exact .refl _
  | none =>
      cases hnormal : registry.cache.get? (normalize source) with
      | none =>
          rw [reading_eq_meaning hcached hnormal,
            reading_eq_meaning (by rwa [hcache]) (by rwa [hcache])]
          exact Cache.narrows_meaning hempty
            (fun other hother => (hcontains other).mpr (Or.inr hother)) source
      | some parsed =>
          by_cases hold : registry.contains source = true
          · rw [reading_of_contains hcached hold,
              reading_of_contains (by rwa [hcache]) ((hcontains source).mpr (Or.inr hold))]
            exact .refl _
          · have hnew : (registry.makeBinding name binding).contains source = false := by
              rw [Bool.eq_false_iff]
              intro hnew
              have heq : source = name := ((hcontains source).mp hnew).resolve_right hold
              rw [heq] at hcached hnormal hold
              rw [Spelling.normalize_of_isPlainWord (hkept.resolve_left hold), hcached] at hnormal
              cases hnormal
            rw [Bool.not_eq_true] at hold
            rw [reading_of_uncached hcached hold, reading_of_uncached (by rwa [hcache]) hnew,
              hcache, hnormal]
            exact .refl _

/-- A reading after a name has been bound has the names it had before, and the new name if
that divides. -/
theorem Coherent.names_reading_makeBinding (h : Coherent initial registry) {name : String}
    {binding : Binding σ} (hname : name ≠ "") {source : String}
    (hsource : ∀ other ∈ (registry.reading source).names, registry.contains other = true) :
    ∀ other ∈ ((registry.makeBinding name binding).reading source).names,
      other ∈ (registry.reading source).names ∨
        other = name ∧ registry.contains name = false ∧ ¬ Indivisible name := by
  let bound := registry.makeBinding name binding
  have hcontains (other : String) := contains_makeBinding registry name binding other
  have hempty : bound.contains "" = false := by
    rw [Bool.eq_false_iff]
    intro hbound
    rcases (hcontains "").mp hbound with heq | hold
    · exact hname heq.symm
    · rw [h.nonempty] at hold
      cases hold
  have hbound : ∀ other ∈ (registry.reading source).names, bound.contains other = true :=
    fun other hother => (hcontains other).mpr (Or.inr (hsource other hother))
  intro other hother
  by_cases hkept : registry.contains name = true ∨ Text.isPlainWord name = true
  · refine (narrows_reading_makeBinding hempty hkept source hbound other hother).imp id ?_
    rintro ⟨hold, hnew, hdivides⟩
    have heq : other = name := ((hcontains other).mp hnew).resolve_right (by simp [hold])
    rw [heq] at hold hdivides
    exact ⟨heq, hold, hdivides⟩
  · rw [not_or, Bool.not_eq_true, Bool.not_eq_true] at hkept
    have hclear (key : String) : bound.cache.get? key = none := by
      rw [cache_makeBinding, if_neg (by simp [hkept])]
      rfl
    -- the text is read anew, and was last read under some of the names bound now
    obtain ⟨defined, hearlier, hreading⟩ := h.dated.exists_earlier h.groupless h.kept source
    have hgrow (other : String) (hother : defined other = true) : bound.contains other = true :=
      (hcontains other).mpr (Or.inr (hearlier.contains other hother))
    have hnarrows := Cache.narrows_meaning hempty hgrow source
    rw [← hreading, ← reading_eq_meaning (hclear source) (hclear (normalize source))] at hnarrows
    refine (hnarrows hbound other hother).imp id fun ⟨hold, hnew, hdivides⟩ => ?_
    rcases (hcontains other).mp hnew with heq | hbefore
    · rw [heq] at hdivides
      exact ⟨heq, hkept.1, hdivides⟩
    · rcases hearlier.since other hbefore with hdefined | hword
      · rw [hdefined] at hold
        cases hold
      · exact absurd (Parser.indivisible_of_isPlainWord hword) hdivides

theorem refers_compile (hnames : GrouplessNames registry) (source : String) :
    (registry.compile source).2.Refers = registry.Refers := by
  funext name other
  simp only [Refers, bindings_compile, reading_compile hnames]

theorem Coherent.compile (h : Coherent initial registry) (source : String) :
    Coherent initial (registry.compile source).2 where
  groupless := h.groupless
  kept := h.kept
  nonempty := h.nonempty
  dated := h.dated.compile h.groupless h.kept source
  closed := by
    rw [refers_compile h.groupless]
    exact h.closed

/-- Nothing but the bindings and the cache matters. -/
theorem Coherent.frame (h : Coherent initial registry) {after : Registry σ}
    (hbindings : after.bindings = registry.bindings) (hcache : after.cache = registry.cache) :
    Coherent initial after := by
  have hcontains := contains_congr hbindings
  refine ⟨?_, ?_, ?_, h.dated.frame hbindings hcache, ?_⟩
  · rw [GrouplessNames, hcontains]
    exact h.groupless
  · rw [hcontains]
    exact h.kept
  · rw [hcontains]
    exact h.nonempty
  · rintro name other ⟨source, hsource, hother⟩
    rw [hbindings] at hsource
    rw [reading_congr hbindings hcache] at hother
    rw [hcontains]
    exact h.closed name other ⟨source, hsource, hother⟩

theorem Coherent.checked (h : Coherent initial registry) {checked : Registry σ}
    {overriding : Bool} {name : String} {binding : Binding σ}
    (hcheck : registry.bindFault? overriding name binding = (none, checked)) :
    Coherent initial checked := by
  obtain ⟨_, _, ⟨_, _, rfl⟩ | ⟨source, _, rfl, _⟩⟩ := of_bindFault?_eq_none hcheck
  · exact h
  · exact h.compile source

/-- What an alias refers to after a name has been bound: what it referred to before, or the
new name, if that divides. The alias that has been bound refers to names that were
bound before. -/
theorem Coherent.refers_makeBinding (h : Coherent initial registry) {checked : Registry σ}
    {overriding : Bool} {name : String} {binding : Binding σ}
    (hcheck : registry.bindFault? overriding name binding = (none, checked))
    {other referenced : String}
    (hrefers : (checked.makeBinding name binding).Refers other referenced) :
    (registry.contains referenced = true ∧ referenced ≠ name ∧ other = name) ∨
      (registry.Refers other referenced ∧ other ≠ name) ∨
      (referenced = name ∧ registry.contains name = false ∧ ¬ Indivisible name) := by
  obtain ⟨hblank, _, hchecked⟩ := of_bindFault?_eq_none hcheck
  have hname : name ≠ "" := by
    rintro rfl
    cases hblank
  obtain ⟨source, hsource, hreferenced⟩ := hrefers
  have hbindings := bindings_of_bindFault?_eq_none hcheck
  rw [bindings_makeBinding, Table.get?_insert, hbindings] at hsource
  have hcontains := contains_congr hbindings
  have hreading : checked.reading source = registry.reading source := by
    obtain ⟨_, _, rfl⟩ | ⟨text, _, rfl, _⟩ := hchecked
    · rfl
    · exact reading_compile h.groupless text source
  have hnew (hnames : ∀ other ∈ (registry.reading source).names, registry.contains other = true) :
      referenced ∈ (registry.reading source).names ∨ referenced = name ∧
        registry.contains name = false ∧ ¬ Indivisible name := by
    rw [← hreading, ← hcontains] at hnames ⊢
    exact (h.checked hcheck).names_reading_makeBinding hname hnames referenced hreferenced
  split at hsource
  · next heq =>
      rw [Option.some.injEq] at hsource
      obtain ⟨_, rfl, _⟩ | ⟨text, rfl, _, hnames⟩ := hchecked
      · cases hsource
      · cases hsource
        refine (hnew fun other hother => (hnames other hother).2).imp (fun hold => ?_) Or.inr
        exact ⟨(hnames referenced hold).2, (hnames referenced hold).1, heq.symm⟩
  · next hne =>
      refine Or.inr ((hnew fun other hother => ?_).imp (fun hold => ?_) id)
      · exact h.closed _ other ⟨source, hsource, hother⟩
      · exact ⟨⟨source, hsource, hold⟩, fun heq => hne heq.symm⟩

/-- Every step keeps a registry coherent, as long as no name with a group is bound. -/
theorem Coherent.step (h : Coherent initial registry) {after : Registry σ}
    (hstep : Step registry after) (hgroupless : GrouplessNames after) :
    Coherent initial after := by
  cases hstep with
  | compile source => exact h.compile source
  | bind checked overriding name binding hcheck =>
      have hchecked := h.checked hcheck
      have hcontains := contains_makeBinding checked name binding
      refine ⟨hgroupless, ?_, ?_, hchecked.dated.makeBinding name binding, ?_⟩
      · intro other hother
        exact (hcontains other).mpr (Or.inr (hchecked.kept other hother))
      · rw [Bool.eq_false_iff]
        intro hempty
        rcases (hcontains "").mp hempty with rfl | hold
        · cases (of_bindFault?_eq_none hcheck).1
        · rw [hchecked.nonempty] at hold
          cases hold
      · intro other referenced hrefers
        have hold (hold : registry.contains referenced = true) :
            (checked.makeBinding name binding).contains referenced = true :=
          Steps.contains (.single (.bind registry checked overriding name binding hcheck)) hold
        rcases h.refers_makeBinding hcheck hrefers with ⟨hbound, _⟩ | ⟨hbefore, _⟩ | ⟨heq, _⟩
        · exact hold hbound
        · exact hold (h.closed other referenced hbefore)
        · exact (hcontains referenced).mpr (Or.inl heq)
  | consult fault => exact h.frame rfl rfl
  | write state => exact h.frame rfl rfl
  | setHook hook => exact h.frame rfl rfl

theorem coherent_new (options : Options) (state : σ) :
    Coherent (new options state).contains (new options state) where
  groupless name hname := Groups.groupless_of_notMem
    (Parser.notMem_of_isPlainWord (isPlainWord_of_contains_new hname) (by decide))
  kept _ hname := hname
  nonempty := by
    rw [Bool.eq_false_iff]
    intro hempty
    exact absurd (isPlainWord_of_contains_new hempty) (by decide)
  dated := Cache.all_empty _
  closed name other hrefers := by
    have ⟨source, hsource, _⟩ := hrefers
    have hname := (contains_new_iff options state name).mp (contains_of_get? hsource)
    exact (contains_new_iff options state other).mpr ⟨hname.1, (of_refers_new hrefers).1⟩

/-- Without groups in its names, a registry is coherent after any steps from a new one. -/
theorem coherent_of_steps {options : Options} {state : σ}
    (h : Steps (new options state) registry) (hgroupless : GrouplessNames registry) :
    Coherent (new options state).contains registry := by
  induction h with
  | refl => exact coherent_new options state
  | tail _ hlast ih =>
      have hbefore := ih fun name hname => hgroupless name (Steps.contains (.single hlast) hname)
      exact hbefore.step hlast hgroupless

end Registry

end Switchboard
