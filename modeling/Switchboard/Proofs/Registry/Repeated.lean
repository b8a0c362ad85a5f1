import Switchboard.Proofs.Dispatch.Composition
import Switchboard.Proofs.Registry.Unattended

/-!
Evaluating twice. An evaluation compiles the text of an alias when it reaches the alias, so
which texts it compiles depends on the value, and on the fault that may end it. But a text that
has been compiled stays in the cache as long as no name is bound. If tests and hook look at
nothing but what they are given, a second evaluation therefore takes the way of the first, finds
in the cache every text that it meets, and adds nothing to it.
-/

namespace Switchboard

variable {σ α β : Type}

open Registry (PureTests)

/-- Every entry of one cache stands in another. -/
def Cache.Within (cache larger : Cache) : Prop :=
  ∀ key parsed, cache.get? key = some parsed → larger.get? key = some parsed

theorem Cache.Within.refl (cache : Cache) : cache.Within cache :=
  fun _ _ hentry => hentry

theorem Cache.Within.trans {cache middle larger : Cache} (hfirst : cache.Within middle)
    (hsecond : middle.Within larger) : cache.Within larger :=
  fun key parsed hentry => hsecond key parsed (hfirst key parsed hentry)

theorem Cache.within_compile (cache : Cache) (defined : String → Bool) (source : String) :
    cache.Within (cache.compile defined source).2 :=
  fun _ _ hentry => get?_compile_of_cached hentry defined source

namespace Registry

/-- A hook that looks at nothing but the fault. -/
def PureHook (registry : Registry σ) : Prop :=
  ∀ fault, ∃ verdict, registry.hook fault = .done verdict

/-- The registry with another cache, after its hook has seen some faults. -/
def filled (registry : Registry σ) (cache : Cache) (faults : List Fault) : Registry σ :=
  { registry with cache := cache, consulted := registry.consulted ++ faults }

theorem framed_filled {base registry : Registry σ} (h : base.Framed registry) (cache : Cache)
    (faults : List Fault) : base.Framed (registry.filled cache faults) :=
  h.trans ⟨rfl, rfl, rfl⟩

theorem filled_filled (registry : Registry σ) (cache later : Cache) (faults more : List Fault) :
    (registry.filled cache faults).filled later more = registry.filled later (faults ++ more) := by
  simp only [filled, List.append_assoc]

theorem filled_self (registry : Registry σ) : registry.filled registry.cache [] = registry := by
  rw [filled, List.append_nil]

end Registry

/-- An attempt that comes to an end and leaves nothing behind but entries of the cache and
faults shown to the hook. Wherever these entries stand, it comes to the same end, shows the
same faults and adds no entry. -/
def Attempt.Repeats (base : Registry σ) (attempt : Attempt σ α) : Prop :=
  ∀ registry, base.Framed registry → ∃ outcome cache faults,
    attempt.run registry = some (outcome, registry.filled cache faults) ∧
    registry.cache.Within cache ∧
    ∀ later, base.Framed later → cache.Within later.cache →
      attempt.run later = some (outcome, later.filled later.cache faults)

theorem Attempt.repeats_pure (base : Registry σ) (result : α) :
    Attempt.Repeats base (pure result : Attempt σ α) := by
  intro registry _
  refine ⟨.ok result, registry.cache, [], ?_, .refl _, fun later _ _ => ?_⟩
  · rw [registry.filled_self]
    rfl
  · rw [later.filled_self]
    rfl

theorem Attempt.Repeats.congr {base : Registry σ} {attempt other : Attempt σ α}
    (h : other.Repeats base)
    (hsame : ∀ registry, base.Framed registry → attempt.run registry = other.run registry) :
    attempt.Repeats base := by
  intro registry hframed
  obtain ⟨outcome, cache, faults, hrun, hwithin, hagain⟩ := h registry hframed
  refine ⟨outcome, cache, faults, (hsame registry hframed).trans hrun, hwithin, ?_⟩
  intro later hlater hentries
  exact (hsame later hlater).trans (hagain later hlater hentries)

/-- The entries of the first part are among those of the whole, so both parts are repeated. -/
theorem Attempt.Repeats.bind {base : Registry σ} {attempt : Attempt σ α} {next : α → Attempt σ β}
    (hattempt : attempt.Repeats base) (hnext : ∀ result, (next result).Repeats base) :
    (attempt >>= next).Repeats base := by
  intro registry hframed
  obtain ⟨outcome, cache, faults, hrun, hwithin, hagain⟩ := hattempt registry hframed
  cases outcome with
  | error fault =>
      refine ⟨.error fault, cache, faults, Attempt.run_bind_error hrun, hwithin, ?_⟩
      intro later hlater hentries
      exact Attempt.run_bind_error (hagain later hlater hentries)
  | ok result =>
      obtain ⟨outcome, full, more, hrest, hgrown, hrestAgain⟩ :=
        hnext result _ (Registry.framed_filled hframed cache faults)
      refine ⟨outcome, full, faults ++ more, ?_, hwithin.trans hgrown, ?_⟩
      · rw [Attempt.run_bind_ok hrun, hrest, Registry.filled_filled]
      · intro later hlater hentries
        rw [Attempt.run_bind_ok (hagain later hlater (hgrown.trans hentries)),
          hrestAgain _ (Registry.framed_filled hlater _ _) hentries, Registry.filled_filled]
        rfl

namespace Registry

variable {base : Registry σ}

theorem orFalse_repeats (hhook : PureHook base) (answers : Answers σ) (fault : Fault) :
    (orFalse answers fault).Repeats base := by
  obtain ⟨verdict, hverdict⟩ := hhook fault
  have hrun (registry : Registry σ) (hframed : base.Framed registry) :
      (orFalse answers fault).run registry =
        some (if verdict = .recover && fault.isRecoverable then .ok false else .error fault,
          registry.filled registry.cache [fault]) := by
    have hconsult : consult answers fault registry =
        some (verdict, registry.filled registry.cache [fault]) := by
      change (registry.hook fault).runClosed answers (registry.filled registry.cache [fault]) = _
      rw [hframed.hook, hverdict]
      rfl
    rw [orFalse, recover, bind_assoc, Attempt.run_bind_ok (Attempt.run_lift hconsult)]
    split <;> rfl
  intro registry hframed
  exact ⟨_, _, _, hrun registry hframed, .refl _, fun later hlater _ => hrun later hlater⟩

theorem resolve_repeats (htests : PureTests base) (hhook : PureHook base) {answers : Answers σ}
    {follow : String → String → Value → Attempt σ Bool}
    (hfollow : ∀ name source v, (follow name source v).Repeats base) (name : String) (v : Value) :
    (resolve answers follow name v).Repeats base := by
  rcases hbinding : Table.get? name base.bindings with _ | test | source
  · refine (orFalse_repeats hhook answers (.unknownType name)).congr fun registry hframed => ?_
    rw [resolve_run, hframed.bindings, hbinding]
  · refine (Attempt.repeats_pure base (test.holds v)).congr fun registry hframed => ?_
    rw [resolve_run, hframed.bindings, hbinding]
    exact Attempt.run_lift (htests.check_run hbinding answers v registry)
  · refine (hfollow name source v).congr fun registry hframed => ?_
    rw [resolve_run, hframed.bindings, hbinding]

/-- A text has the tree in the end that it had when it was compiled. -/
theorem compileStep_repeats {next : Expr → Attempt σ α} (hnext : ∀ tree, (next tree).Repeats base)
    (source : String) : Attempt.Repeats base (do
      let parsed ← (compileStep source : Run σ Parsed)
      next parsed.tree) := by
  intro registry hframed
  have hcompiled : base.Framed (registry.compile source).2 := hframed.trans ⟨rfl, rfl, rfl⟩
  obtain ⟨outcome, cache, faults, hrun, hwithin, hagain⟩ :=
    hnext (registry.compile source).1.tree _ hcompiled
  refine ⟨outcome, cache, faults, hrun, ?_, fun later hlater hentries => ?_⟩
  · exact (registry.cache.within_compile registry.contains source).trans hwithin
  · have hcached : later.cache.get? source = some (registry.compile source).1 :=
      hentries _ _ (hwithin _ _
        (Cache.get?_compile_self registry.contains source registry.cache))
    change (next (later.compile source).1.tree).run (later.compile source).2 = _
    rw [compile_of_cached hcached]
    exact hagain later hlater hentries

/-- Every test repeats itself, if tests and hook look at nothing but what they are given. -/
theorem repeats_compositional (htests : PureTests base) (hhook : PureHook base)
    (answers : Answers σ) : Attempt.Compositional answers (Attempt.Repeats base) where
  pure := Attempt.repeats_pure base
  bind := Attempt.Repeats.bind
  resolve := resolve_repeats htests hhook
  cyclic _ := orFalse_repeats hhook answers _
  compile := compileStep_repeats
  settings hnext := (hnext base.options.maxAliasDepth).congr fun registry hframed => by
    rw [Attempt.run_get_bind, hframed.options]

/-- An evaluation comes to an end, and changes nothing but the cache, which gets new entries and
keeps those that it has; what else is new is the list of faults that the hook has seen. A second
evaluation of the same text on the same value comes to the same end, with a result or with a
fault, shows the hook the same faults, and leaves the cache too as it is. Tests and hook look at
nothing but what they are given. -/
theorem evaluate_repeatable (answers : Answers σ) {registry : Registry σ}
    (htests : PureTests registry) (hhook : PureHook registry) (source : String) (v : Value) :
    ∃ outcome after last, (evaluate answers source v).run registry = some (outcome, after) ∧
      after.bindings = registry.bindings ∧ registry.cache.Within after.cache ∧
      (evaluate answers source v).run after = some (outcome, last) ∧
      last.bindings = after.bindings ∧ last.cache = after.cache ∧
      ∃ faults, after = registry.filled after.cache faults ∧
        last = after.filled after.cache faults := by
  have hrepeats : (evaluate answers source v).Repeats registry :=
    (repeats_compositional htests hhook answers).evaluate source v
  obtain ⟨outcome, cache, faults, hrun, hwithin, hagain⟩ := hrepeats registry (.refl registry)
  have hlast := hagain (registry.filled cache faults)
    (framed_filled (.refl registry) cache faults) (.refl cache)
  exact ⟨outcome, _, _, hrun, rfl, hwithin, hlast, rfl, rfl, faults, rfl, rfl⟩

/-- Two aliases are compiled on the way to an unknown name; the second evaluation fails there
too, and finds the three texts in the cache. -/
theorem evaluate_repeatable_gadget :
    let registry : Registry Unit := new .standard ()
    let attempt : Attempt Unit Bool := evaluate .exceeded "set and gadget" (.number .zero)
    PureTests registry ∧ PureHook registry ∧ ∃ after last,
      attempt.run registry = some (.error (.unknownType "gadget"), after) ∧
      attempt.run after = some (.error (.unknownType "gadget"), last) ∧
      after.cachedExpressions = 3 ∧ last.cache = after.cache := by
  intro registry attempt
  have htests : PureTests registry := pureTests_new .standard ()
  have hhook : PureHook registry := fun _ => ⟨.raise, rfl⟩
  obtain ⟨outcome, after, last, hrun, _, _, hagain, _, hcache, _⟩ :=
    evaluate_repeatable .exceeded htests hhook "set and gadget" (.number .zero)
  have hended : (attempt.run registry).map (fun answer => (answer.1, answer.2.cachedExpressions)) =
      some (.error (.unknownType "gadget"), 3) := by decide +kernel
  rw [show attempt.run registry = some (outcome, after) from hrun] at hended
  obtain ⟨rfl, hsize⟩ := Prod.mk.inj (Option.some.inj hended)
  exact ⟨htests, hhook, after, last, hrun, hagain, hsize, hcache⟩

end Registry

end Switchboard
