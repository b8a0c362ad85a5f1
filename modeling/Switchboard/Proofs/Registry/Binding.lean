import Switchboard.Proofs.Registry.Growth
import Switchboard.Proofs.Registry.Truth

/-!
Binding a name, all or nothing. The checks of a binding come in a fixed order, and the first
that fails refuses it; a refused binding leaves every binding as it was, even if its alias has
been compiled on the way. A binding that passes sets its name and no other. Compiled trees
stay, except that a new name that is no plain word empties the cache. So names are never
lost, and there are as many as a new registry has and others have been bound since.
-/

namespace Switchboard.Registry

variable {σ : Type} {options : Options} {state : σ} {registry : Registry σ}

/-- The check that refuses a binding, all earlier checks having been passed, and its fault. -/
inductive Refused (registry : Registry σ) (overriding : Bool) (name : String) :
    Binding σ → Fault → Prop
  | blankName {binding : Binding σ} (hname : Text.isBlankText name = true) :
      Refused registry overriding name binding (.invalidDefinition name .emptyName)
  | taken {binding : Binding σ} (hname : Text.isBlankText name = false)
      (hdefine : overriding = false) (htaken : registry.contains name = true) :
      Refused registry overriding name binding (.duplicateType name)
  | blankAlias {source : String} (hname : Text.isBlankText name = false)
      (hfree : overriding = false → registry.contains name = false)
      (hsource : Text.isBlankText source = true) :
      Refused registry overriding name (.alias source) (.invalidDefinition name .emptyAlias)
  | itself {source : String} {before after : List String}
      (hname : Text.isBlankText name = false)
      (hfree : overriding = false → registry.contains name = false)
      (hsource : Text.isBlankText source = false)
      (hnames : (registry.reading source).names = before ++ name :: after)
      (hbefore : ∀ other ∈ before, other ≠ name ∧ registry.contains other = true) :
      Refused registry overriding name (.alias source)
        (.invalidDefinition name (.refersToItself source))
  | unknown {source other : String} {before after : List String}
      (hname : Text.isBlankText name = false)
      (hfree : overriding = false → registry.contains name = false)
      (hsource : Text.isBlankText source = false)
      (hnames : (registry.reading source).names = before ++ other :: after)
      (hbefore : ∀ other ∈ before, other ≠ name ∧ registry.contains other = true)
      (hother : other ≠ name ∧ registry.contains other = false) :
      Refused registry overriding name (.alias source)
        (.invalidDefinition name (.undefinedReference other))

/-- The objection to an alias is to the first name that is the bound name or is unknown. -/
theorem nameObjection?_eq_some_iff {name source : String} {names : List String}
    {objection : Objection} :
    registry.nameObjection? name source names = some objection ↔
      ∃ before other after, names = before ++ other :: after ∧
        (∀ earlier ∈ before, earlier ≠ name ∧ registry.contains earlier = true) ∧
        (other = name ∧ objection = .refersToItself source ∨
          (other ≠ name ∧ registry.contains other = false) ∧
            objection = .undefinedReference other) := by
  constructor
  · intro h
    induction names with
    | nil => cases h
    | cons referenced rest ih =>
        rw [nameObjection?] at h
        split at h
        · next heq =>
            cases h
            exact ⟨[], referenced, rest, rfl, by simp, Or.inl ⟨heq, rfl⟩⟩
        · next hne =>
            split at h
            · next hbound =>
                obtain ⟨before, other, after, rfl, hbefore, hother⟩ := ih h
                exact ⟨referenced :: before, other, after, rfl,
                  List.forall_mem_cons.mpr ⟨⟨hne, hbound⟩, hbefore⟩, hother⟩
            · next hunknown =>
                cases h
                exact ⟨[], referenced, rest, rfl, by simp,
                  Or.inr ⟨⟨hne, Bool.eq_false_iff.mpr hunknown⟩, rfl⟩⟩
  · rintro ⟨before, other, after, rfl, hbefore, hother⟩
    induction before with
    | nil =>
        rcases hother with ⟨rfl, rfl⟩ | ⟨⟨hne, hunknown⟩, rfl⟩
        · rw [List.nil_append, nameObjection?, if_pos rfl]
        · rw [List.nil_append, nameObjection?, if_neg hne, if_neg (by simp [hunknown])]
    | cons referenced before ih =>
        obtain ⟨⟨hne, hbound⟩, hbefore⟩ := List.forall_mem_cons.mp hbefore
        rw [List.cons_append, nameObjection?, if_neg hne, if_pos hbound]
        exact ih hbefore

/-- An alias is objected to if it is blank, and else for one of the names that it reads as. -/
theorem aliasObjection?_eq_some_iff {name source : String} {objection : Objection} :
    (registry.aliasObjection? name source).1 = some objection ↔
      (Text.isBlankText source = true ∧ objection = .emptyAlias) ∨
        Text.isBlankText source = false ∧
          ∃ before other after, (registry.reading source).names = before ++ other :: after ∧
            (∀ earlier ∈ before, earlier ≠ name ∧ registry.contains earlier = true) ∧
            (other = name ∧ objection = .refersToItself source ∨
              (other ≠ name ∧ registry.contains other = false) ∧
                objection = .undefinedReference other) := by
  cases hsource : Text.isBlankText source with
  | true =>
      rw [aliasObjection?, if_pos hsource]
      constructor
      · rintro ⟨⟩
        exact Or.inl ⟨rfl, rfl⟩
      · rintro (⟨_, rfl⟩ | ⟨hfalse, _⟩)
        · rfl
        · cases hfalse
  | false =>
      have hnamed : (registry.aliasObjection? name source).1 =
          (registry.compile source).2.nameObjection? name source
            (registry.reading source).names := by
        rw [aliasObjection?, if_neg (by simp [hsource])]
        rfl
      rw [hnamed, nameObjection?_eq_some_iff, contains_compile]
      simp

/-- The checks of an alias whose name passes are those of its text. -/
theorem bindFault?_alias {overriding : Bool} {name source : String}
    (hname : Text.isBlankText name = false)
    (hfree : overriding = false → registry.contains name = false) :
    (registry.bindFault? overriding name (.alias source)).1 =
      (registry.aliasObjection? name source).1.map (.invalidDefinition name) := by
  have hfree : (!overriding && registry.contains name) = false := by
    cases overriding with
    | true => rfl
    | false => exact hfree rfl
  rw [bindFault?, if_neg (by simp [hname]), if_neg (by simp [hfree])]

/-- The checks find the fault for which a binding is refused, and none if it is not. -/
theorem bindFault?_eq_some_iff {overriding : Bool} {name : String} {binding : Binding σ}
    {fault : Fault} : (registry.bindFault? overriding name binding).1 = some fault ↔
      registry.Refused overriding name binding fault := by
  constructor
  · intro h
    unfold bindFault? at h
    split at h
    · next hname =>
        cases h
        exact .blankName hname
    · next hname =>
        have hname := Bool.eq_false_iff.mpr hname
        split at h
        · next htaken =>
            cases h
            obtain ⟨hdefine, htaken⟩ := Bool.and_eq_true_iff.mp htaken
            exact .taken hname (by simpa using hdefine) htaken
        · next hfree =>
            have hfree : overriding = false → registry.contains name = false := by
              rintro rfl
              simpa using hfree
            rcases binding with test | source
            · cases h
            · obtain ⟨objection, hobjection, rfl⟩ := Option.map_eq_some_iff.mp h
              rcases aliasObjection?_eq_some_iff.mp hobjection with
                ⟨hsource, rfl⟩ | ⟨hsource, before, other, after, hnames, hbefore, hother⟩
              · exact .blankAlias hname hfree hsource
              · rcases hother with ⟨rfl, rfl⟩ | ⟨hother, rfl⟩
                · exact .itself hname hfree hsource hnames hbefore
                · exact .unknown hname hfree hsource hnames hbefore hother
  · intro h
    cases h with
    | blankName hname => simp [bindFault?, hname]
    | taken hname hdefine htaken => simp [bindFault?, hname, hdefine, htaken]
    | blankAlias hname hfree hsource =>
        rw [bindFault?_alias hname hfree, aliasObjection?_eq_some_iff.mpr (Or.inl ⟨hsource, rfl⟩)]
        rfl
    | itself hname hfree hsource hnames hbefore =>
        rw [bindFault?_alias hname hfree, aliasObjection?_eq_some_iff.mpr
          (Or.inr ⟨hsource, _, name, _, hnames, hbefore, Or.inl ⟨rfl, rfl⟩⟩)]
        rfl
    | unknown hname hfree hsource hnames hbefore hother =>
        rw [bindFault?_alias hname hfree, aliasObjection?_eq_some_iff.mpr
          (Or.inr ⟨hsource, _, _, _, hnames, hbefore, Or.inr ⟨hother, rfl⟩⟩)]
        rfl

/-- The names that have been bound on the way to a registry, in their order: those that
passed the checks, whether a call of the user bound them or a program that it ran. -/
inductive History (options : Options) (state : σ) : List String → Registry σ → Prop
  | new : History options state [] (new options state)
  | compile {bound : List String} {registry : Registry σ} (source : String)
      (h : History options state bound registry) :
      History options state bound (registry.compile source).2
  | bind {bound : List String} {registry checked : Registry σ} {overriding : Bool}
      {name : String} {binding : Binding σ}
      (hcheck : registry.bindFault? overriding name binding = (none, checked))
      (h : History options state bound registry) :
      History options state (bound ++ [name]) (checked.makeBinding name binding)
  | consult {bound : List String} {registry : Registry σ} (fault : Fault)
      (h : History options state bound registry) :
      History options state bound { registry with consulted := registry.consulted ++ [fault] }
  | write {bound : List String} {registry : Registry σ} (written : σ)
      (h : History options state bound registry) :
      History options state bound { registry with state := written }
  | setHook {bound : List String} {registry : Registry σ} (hook : Hook σ)
      (h : History options state bound registry) :
      History options state bound { registry with hook := hook }

theorem History.step {bound : List String} (h : History options state bound registry)
    {after : Registry σ} (hstep : Step registry after) :
    ∃ bound, History options state bound after := by
  cases hstep with
  | compile source => exact ⟨bound, h.compile source⟩
  | bind checked overriding name binding hcheck => exact ⟨bound ++ [name], h.bind hcheck⟩
  | consult fault => exact ⟨bound, h.consult fault⟩
  | write written => exact ⟨bound, h.write written⟩
  | setHook hook => exact ⟨bound, h.setHook hook⟩

theorem ReachableFrom.exists_history (h : ReachableFrom options state registry) :
    ∃ bound, History options state bound registry := by
  have hsteps := h.steps
  clear h
  induction hsteps with
  | refl => exact ⟨[], .new⟩
  | tail _ hlast ih =>
      obtain ⟨bound, hbound⟩ := ih
      exact hbound.step hlast

/-- A registry has the names of a new one and those that have been bound, each once. -/
theorem History.keys {bound : List String} (h : History options state bound registry) :
    Table.Distinct registry.bindings ∧ ∀ name, registry.contains name = true ↔
      (Registry.new options state).contains name = true ∨ name ∈ bound := by
  induction h with
  | new =>
      refine ⟨?_, fun name => by simp⟩
      rw [Table.Distinct, Registry.new]
      dsimp only
      split
      · rw [keys_builtins]
        decide
      · exact List.nodup_nil
  | @bind bound registry checked overriding name binding hcheck _ ih =>
      obtain ⟨hdistinct, hnames⟩ := ih
      have hbindings := bindings_of_bindFault?_eq_none hcheck
      refine ⟨?_, fun other => ?_⟩
      · rw [bindings_makeBinding, hbindings]
        exact Table.distinct_insert name binding hdistinct
      · rw [contains_makeBinding, contains_congr hbindings, hnames, List.mem_append,
          List.mem_singleton]
        tauto
  | compile source _ ih | consult fault _ ih | write written _ ih | setHook hook _ ih => exact ih

/-- There are as many names as a new registry has and others have been bound. -/
theorem History.size_eq {bound : List String} (h : History options state bound registry) :
    registry.size = (Registry.new options state).size +
      (bound.filter fun name => !(Registry.new options state).contains name).dedup.length := by
  obtain ⟨hdistinct, hnames⟩ := h.keys
  obtain ⟨hfirst, _⟩ := (History.new : History options state [] (Registry.new options state)).keys
  have hperm : (Table.keys registry.bindings).Perm
      (Table.keys (Registry.new options state).bindings ++
        (bound.filter fun name => !(Registry.new options state).contains name).dedup) := by
    refine (List.perm_ext_iff_of_nodup hdistinct ?_).mpr fun name => ?_
    · refine List.nodup_append.mpr ⟨hfirst, List.nodup_dedup _, ?_⟩
      rintro name hname _ hother rfl
      rw [List.mem_dedup, List.mem_filter] at hother
      simp [(contains_iff_mem_keys _ name).mpr hname] at hother
    · rw [← contains_iff_mem_keys, hnames, List.mem_append, ← contains_iff_mem_keys,
        List.mem_dedup, List.mem_filter]
      cases (Registry.new options state).contains name <;> simp
  simpa only [size, Table.keys, List.length_append, List.length_map] using hperm.length_eq

/-- A call that binds nothing: the bindings are the old ones, no tree has left the cache, and
the fault is the outcome unless the hook recovers from it. -/
structure Declines (answers : Answers σ) (registry after : Registry σ) (fault : Fault)
    (outcome : Except Fault Unit) : Prop where
  onward : registry.Onward after
  verdict : ∃ verdict,
    (∀ other : Registry σ, other.state = registry.state → ∃ later,
      (registry.hook fault).runClosed answers other = some (verdict, later)) ∧
    outcome = if verdict = .recover then .ok () else .error fault

/-- A call that binds exactly this name. Every tree is kept, unless the name is new and no
plain word: then none is. -/
structure Binds (registry after : Registry σ) (name : String) (binding : Binding σ)
    (outcome : Except Fault Unit) : Prop where
  outcome : outcome = .ok ()
  bindings : after.bindings = Table.insert name binding registry.bindings
  cleared : registry.contains name = false → Text.isPlainWord name = false →
    after.cache.entries = []
  kept : registry.contains name = true ∨ Text.isPlainWord name = true →
    ∀ source parsed, registry.cache.get? source = some parsed →
      after.cache.get? source = some parsed

/-- A check changes nothing but the cache, in which every tree stays. -/
theorem onward_bindFault? {checked : Registry σ} {overriding : Bool} {name : String}
    {binding : Binding σ} {fault? : Option Fault}
    (h : registry.bindFault? overriding name binding = (fault?, checked)) :
    registry.Onward checked ∧ checked.state = registry.state := by
  have hchecked := bindFault?_snd registry overriding name binding
  rw [h] at hchecked
  rcases hchecked with rfl | ⟨source, rfl⟩
  · exact ⟨.refl _, rfl⟩
  · exact ⟨onward_compile registry source, rfl⟩

/-- A check binds nothing. -/
theorem History.checked {bound : List String} (h : History options state bound registry)
    {checked : Registry σ} {overriding : Bool} {name : String} {binding : Binding σ}
    {fault? : Option Fault}
    (hcheck : registry.bindFault? overriding name binding = (fault?, checked)) :
    History options state bound checked := by
  have hchecked := bindFault?_snd registry overriding name binding
  rw [hcheck] at hchecked
  rcases hchecked with heq | ⟨source, heq⟩
  · exact (show checked = registry from heq) ▸ h
  · exact (show checked = (registry.compile source).2 from heq) ▸ h.compile source

/-- A refused binding is declined, if the hook leaves the registry alone. -/
theorem bind_declines (hhook : ∀ fault, (registry.hook fault).Aloof) (answers : Answers σ)
    {overriding : Bool} {name : String} {binding : Binding σ} {fault : Fault}
    (h : registry.Refused overriding name binding fault) :
    ∃ outcome after,
      (bind answers overriding name binding).run registry = some (outcome, after) ∧
        registry.Declines answers after fault outcome ∧
        ∀ bound, History options state bound registry → History options state bound after := by
  rcases hcheck : registry.bindFault? overriding name binding with ⟨fault?, checked⟩
  obtain rfl : fault? = some fault := by
    rw [← bindFault?_eq_some_iff.mpr h, hcheck]
  obtain ⟨honward, hstate⟩ := onward_bindFault? hcheck
  obtain ⟨verdict, last, _, hrun⟩ :=
    (hhook fault).alone.run_eq answers Empty.elim registry.state
  have hconsult : consult answers fault checked =
      some (verdict, checked.shown fault last) := by
    rw [← honward.framed.hook] at hrun
    exact hrun { checked with consulted := checked.consulted ++ [fault] } hstate
  refine ⟨if verdict = .recover then .ok () else .error fault, checked.shown fault last, ?_, ?_,
    fun bound hbound => ((hbound.checked hcheck).consult fault).write last⟩
  · rw [bind_run_of_fault answers hcheck, recover,
      Attempt.run_bind_ok (Attempt.run_lift hconsult), (of_bindFault?_eq_some hcheck).2,
      Bool.and_true]
    cases verdict <;> rfl
  · exact ⟨honward.trans (onward_shown checked fault last), verdict,
      fun other hother => ⟨_, hrun other hother⟩, rfl⟩

/-- A binding that is not refused is made. -/
theorem bind_binds (answers : Answers σ) {overriding : Bool} {name : String}
    {binding : Binding σ} (h : ∀ fault, ¬ registry.Refused overriding name binding fault) :
    ∃ outcome after,
      (bind answers overriding name binding).run registry = some (outcome, after) ∧
        registry.Binds after name binding outcome ∧
        ∀ bound, History options state bound registry →
          History options state (bound ++ [name]) after := by
  rcases hcheck : registry.bindFault? overriding name binding with ⟨fault?, checked⟩
  obtain rfl : fault? = none := by
    refine Option.eq_none_iff_forall_not_mem.mpr fun fault hfault => ?_
    exact h fault (bindFault?_eq_some_iff.mp (by rw [hcheck]; exact hfault))
  obtain ⟨honward, _⟩ := onward_bindFault? hcheck
  have hcontains : checked.contains name = registry.contains name := by
    rw [contains_congr honward.framed.bindings]
  refine ⟨.ok (), checked.makeBinding name binding, bind_run_of_valid answers hcheck,
    ⟨rfl, ?_, ?_, ?_⟩, fun bound hbound => hbound.bind hcheck⟩
  · rw [bindings_makeBinding, honward.framed.bindings]
  · intro hnew hword
    rw [cache_makeBinding, hcontains, hnew, hword]
    rfl
  · intro hkept source parsed hcached
    rw [cache_makeBinding, hcontains, if_pos (by simpa using hkept)]
    exact honward.kept source parsed hcached

/-- Binding a name is all or nothing. The call always ends. If a check refuses the binding,
in the order of the checks, nothing is bound and no tree leaves the cache, and the call fails
unless the hook recovers; else exactly this name is set, and the cache is emptied or keeps
every tree. No call loses a name, and a registry has as many names as a new one and as other
names have been bound on the way to it. -/
theorem bind_atomic (hreach : ReachableFrom options state registry)
    (hhook : ∀ fault, (registry.hook fault).Aloof) (answers : Answers σ) (overriding : Bool)
    (name : String) (binding : Binding σ) :
    (∃ outcome after,
      (bind answers overriding name binding).run registry = some (outcome, after) ∧
        ((∃ fault, registry.Refused overriding name binding fault ∧
            registry.Declines answers after fault outcome ∧
            ∀ bound, History options state bound registry →
              History options state bound after) ∨
          (∀ fault, ¬ registry.Refused overriding name binding fault) ∧
            registry.Binds after name binding outcome ∧
            ∀ bound, History options state bound registry →
              History options state (bound ++ [name]) after)) ∧
      (∀ after, Operation registry after →
        ∀ other, registry.contains other = true → after.contains other = true) ∧
      (∃ bound, History options state bound registry) ∧
      ∀ bound, History options state bound registry →
        registry.size = (new options state).size +
          (bound.filter fun other => !(new options state).contains other).dedup.length := by
  refine ⟨?_, fun after h other hother => Steps.contains h.steps hother, hreach.exists_history,
    fun bound hbound => hbound.size_eq⟩
  by_cases hrefused : ∃ fault, registry.Refused overriding name binding fault
  · obtain ⟨fault, hfault⟩ := hrefused
    obtain ⟨outcome, after, hrun, hdeclines, hhistory⟩ := bind_declines hhook answers hfault
    exact ⟨outcome, after, hrun, Or.inl ⟨fault, hfault, hdeclines, hhistory⟩⟩
  · have hrefused := not_exists.mp hrefused
    obtain ⟨outcome, after, hrun, hbinds, hhistory⟩ := bind_binds answers hrefused
    exact ⟨outcome, after, hrun, Or.inr ⟨hrefused, hbinds, hhistory⟩⟩

/-- In a new registry, an alias with an unknown name in it is refused and binds nothing; an
alias of two kinds of values is bound. -/
theorem bind_atomic_widget :
    let registry := new .standard ()
    (∃ after, (bind .exceeded false "widget" (.alias "gadget or string")).run registry =
        some (.error (.invalidDefinition "widget" (.undefinedReference "gadget")), after) ∧
      after.bindings = registry.bindings) ∧
    ∃ after, (bind .exceeded false "widget" (.alias "string or number")).run registry =
        some (.ok (), after) ∧
      after.bindings = Table.insert "widget" (.alias "string or number") registry.bindings := by
  intro registry
  have hreach : ReachableFrom .standard () registry := .refl
  have hhook (fault : Fault) : (registry.hook fault).Aloof := trivial
  constructor
  · obtain ⟨⟨outcome, after, hrun, hcases⟩, _⟩ :=
      bind_atomic hreach hhook .exceeded false "widget" (.alias "gadget or string")
    have houtcome : ((bind .exceeded false "widget" (.alias "gadget or string")).run registry).map
        Prod.fst = some (.error (.invalidDefinition "widget" (.undefinedReference "gadget"))) := by
      decide +kernel
    rw [hrun] at houtcome
    cases houtcome
    rcases hcases with ⟨fault, _, hdeclines, _⟩ | ⟨_, hbinds, _⟩
    · exact ⟨after, hrun, hdeclines.onward.framed.bindings⟩
    · cases hbinds.outcome
  · obtain ⟨⟨outcome, after, hrun, hcases⟩, _⟩ :=
      bind_atomic hreach hhook .exceeded false "widget" (.alias "string or number")
    have houtcome : ((bind .exceeded false "widget" (.alias "string or number")).run registry).map
        Prod.fst = some (.ok ()) := by decide +kernel
    rw [hrun] at houtcome
    cases houtcome
    rcases hcases with ⟨fault, _, hdeclines, _⟩ | ⟨_, hbinds, _⟩
    · obtain ⟨verdict, hverdict, hfault⟩ := hdeclines.verdict
      obtain ⟨later, hraise⟩ := hverdict registry rfl
      cases hraise
      cases hfault
    · exact ⟨after, hrun, hbinds.bindings⟩

end Switchboard.Registry
