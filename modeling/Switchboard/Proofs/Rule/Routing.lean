import Switchboard.Proofs.Registry.Closure
import Switchboard.Proofs.Registry.Outcome
import Switchboard.Rule.Match

/-!
Rules and the namespace they outlive. A rule of a type text keeps the tree that the text
had when the rule was built, and looks up the names of the tree at each test. So it follows
every later binding of these names; but a name of several words that is bound later is a
name to an evaluation of the text, and no name to the rule. As long as only plain words are
bound, the text keeps its tree too, and the rule tests what an evaluation of the text tests.
-/

namespace Switchboard

variable {σ : Type}

open Registry (Step Steps GrouplessNames PureTests Raises)

namespace Registry

/-- An entry of the cache stays, as long as all names that are bound are plain words. -/
theorem Step.get?_of_cached {registry after : Registry σ} (h : Step registry after)
    (hplain : ∀ name, after.contains name = true →
      registry.contains name = true ∨ Text.isPlainWord name = true)
    {key : String} {parsed : Parsed} (hcached : registry.cache.get? key = some parsed) :
    after.cache.get? key = some parsed := by
  cases h with
  | compile source => exact Cache.get?_compile_of_cached hcached registry.contains source
  | bind checked overriding name binding h =>
      have hchecked : checked.cache.get? key = some parsed := by
        obtain ⟨_, _, ⟨_, _, rfl⟩ | ⟨source, _, rfl, _⟩⟩ := of_bindFault?_eq_none h
        · exact hcached
        · exact Cache.get?_compile_of_cached hcached registry.contains source
      have hname := hplain name ((contains_makeBinding checked name binding name).mpr (Or.inl rfl))
      rw [← contains_congr (bindings_of_bindFault?_eq_none h), ← Bool.or_eq_true] at hname
      rwa [cache_makeBinding, if_pos hname]
  | consult fault => exact hcached
  | write state => exact hcached
  | setHook hook => exact hcached

theorem Steps.get?_of_cached {registry after : Registry σ} (h : Steps registry after)
    (hplain : ∀ name, after.contains name = true →
      registry.contains name = true ∨ Text.isPlainWord name = true)
    {key : String} {parsed : Parsed} (hcached : registry.cache.get? key = some parsed) :
    after.cache.get? key = some parsed := by
  induction h with
  | refl => exact hcached
  | tail hfirst hlast ih =>
      have hbefore := ih fun name hname => hplain name (Steps.contains (.single hlast) hname)
      refine hlast.get?_of_cached (fun name hname => ?_) hbefore
      exact (hplain name hname).imp (Steps.contains hfirst) id

/-- Evaluating a cached text is evaluating its tree. -/
theorem evaluate_of_cached {answers : Answers σ} {registry : Registry σ} {source : String}
    {parsed : Parsed} (h : registry.cache.get? source = some parsed) (v : Value) :
    (evaluate answers source v).run registry =
      (evaluateTree answers parsed.tree v).run registry := by
  change (evaluateTree answers (registry.compile source).1.tree v).run
    (registry.compile source).2 = _
  rw [compile_of_cached h]

end Registry

namespace Rule

/-- What a rule without a default finds in a value that is not `undefined`. -/
def found (v : Value) (accepted : Bool) : Option Match :=
  if accepted then some (.value v) else none

theorem scalarMatch_of_defined {v : Value} (h : v.isUndefined = false) (accepted : Bool) :
    scalarMatch accepted none v = found v accepted := by
  cases accepted <;> simp [scalarMatch, found, h]

/-- A rule of a type text keeps the tree of the text, and building it compiles the text. -/
theorem of_build_type {answers : Answers σ} {registry built : Registry σ} {source : String}
    {rule : Rule} (h : (build answers (.type source)).run registry = some (.ok rule, built)) :
    rule = .scalar source (registry.reading source) none ∧ built = (registry.compile source).2 := by
  rw [build, buildScalar] at h
  split at h
  · -- a blank text is reported, so no rule comes of it
    obtain ⟨outcome, _, _, hthrow⟩ := Run.bind_eq_some_iff.mp h
    cases outcome <;> cases hthrow
  · cases h
    exact ⟨rfl, rfl⟩

theorem build_type_run (answers : Answers σ) {source : String}
    (h : Text.isBlankText source = false) (registry : Registry σ) :
    (build answers (.type source)).run registry =
      some (.ok (.scalar source (registry.reading source) none), (registry.compile source).2) := by
  rw [build, buildScalar, if_neg (by simp [h])]
  rfl

/-- Testing a value is evaluating the tree of the rule on it. -/
theorem test_scalar_run (answers : Answers σ) (source : String) (tree : Expr) {v : Value}
    (hv : v.isUndefined = false) (registry : Registry σ) :
    (test answers (.scalar source tree none) v).run registry =
      ((Registry.evaluateTree answers tree v).run registry).map
        fun (outcome, after) => (outcome.map (found v), after) := by
  rw [test]
  change ((Registry.evaluateTree answers tree v).run registry).bind _ = _
  cases (Registry.evaluateTree answers tree v).run registry with
  | none => rfl
  | some answer =>
      obtain ⟨outcome, after⟩ := answer
      cases outcome with
      | error fault => rfl
      | ok accepted =>
          change some (Except.ok (scalarMatch accepted none v), after) =
            some (Except.ok (found v accepted), after)
          rw [scalarMatch_of_defined hv]

/-- A rule of a type text tests, at any later time, what the tree says that the text had when
the rule was built. That is what an evaluation of the text says, if only plain words have
been bound since; and it is the same result or fault whenever the text still has this tree,
if the hook raises every fault, tests are pure and no name holds a group. -/
theorem test_follows_tree {building : Answers σ} (answers : Answers σ)
    {registry built later : Registry σ} {source : String} {rule : Rule}
    (hbuild : (build building (.type source)).run registry = some (.ok rule, built))
    (hlater : Relation.ReflTransGen Registry.Operation built later) {v : Value}
    (hv : v.isUndefined = false) :
    (test answers rule v).run later =
        ((Registry.evaluateTree answers (registry.reading source) v).run later).map
          (fun (outcome, after) => (outcome.map (found v), after)) ∧
      ((∀ name, later.contains name = true →
          built.contains name = true ∨ Text.isPlainWord name = true) →
        (test answers rule v).run later =
          ((Registry.evaluate answers source v).run later).map
            fun (outcome, after) => (outcome.map (found v), after)) ∧
      (Raises answers later.hook → PureTests later → GrouplessNames later →
        later.reading source = registry.reading source →
        ∃ outcome after testAfter,
          (Registry.evaluate answers source v).run later = some (outcome, after) ∧
          (test answers rule v).run later = some (outcome.map (found v), testAfter)) := by
  obtain ⟨rfl, rfl⟩ := of_build_type hbuild
  have htest := test_scalar_run answers source (registry.reading source) hv later
  refine ⟨htest, fun hplain => ?_, fun hraises htests hnames hreading => ?_⟩
  · have hsteps := Registry.steps_of_operations hlater
    have hcached := Registry.Steps.get?_of_cached hsteps hplain
      (Cache.get?_compile_self registry.contains source registry.cache)
    rw [htest, Registry.evaluate_of_cached hcached]
    rfl
  · have hfault (fault : Fault) :
        (Registry.orFalse answers fault).Computes later (.error fault) :=
      Registry.orFalse_computes hraises fault
    obtain ⟨after, hrun, _⟩ :=
      Registry.evaluate_computes hfault htests hnames source v later (.refl later)
    obtain ⟨testAfter, htestRun, _⟩ := Registry.evaluateTree_computes hfault htests hnames
      (registry.reading source) v later (.refl later)
    rw [hreading] at hrun
    exact ⟨_, after, testAfter, hrun, by rw [htest, htestRun]; rfl⟩

/-- A rule built before another plain word is bound tests what an evaluation says. -/
theorem test_follows_tree_label :
    let built := ((Registry.new .standard ()).compile "string or number").2
    let later := built.makeBinding "label" (.test (.kinds .all))
    ∃ rule, (build .exceeded (.type "string or number")).run (Registry.new .standard ()) =
        some (.ok rule, built) ∧
      (test .exceeded rule (.string "a")).run later =
        ((Registry.evaluate .exceeded "string or number" (.string "a")).run later).map
          fun (outcome, after) => (outcome.map (found (.string "a")), after) := by
  intro built later
  have hbuild := build_type_run .exceeded (by decide : Text.isBlankText "string or number" = false)
    (Registry.new .standard ())
  have hlater : Relation.ReflTransGen Registry.Operation built later :=
    .single (Registry.operation_bindTest built (by decide) _)
  obtain ⟨_, hplain, _⟩ := test_follows_tree .exceeded hbuild hlater
    (by rfl : (Value.string "a").isUndefined = false)
  refine ⟨_, hbuild, hplain fun name hname => ?_⟩
  refine Or.symm (((Registry.contains_makeBinding built "label" _ name).mp hname).imp ?_ id)
  rintro rfl
  decide

/-- A rule built before its text becomes a name goes on to test the two names in it. -/
theorem test_of_compound_name :
    let named := ((Registry.new .standard ()).makeBinding "a"
      (.test (.kinds (.single .string)))).makeBinding "b" (.test (.kinds (.single .number)))
    let built := (named.compile "a or b").2
    let later := built.makeBinding "a or b" (.test (.kinds (.single .null)))
    Registry.ReachableFrom .standard () named ∧ Registry.Operation built later ∧
      ∃ rule, (build .exceeded (.type "a or b")).run named = some (.ok rule, built) ∧
        ((test .exceeded rule (.string "s")).run later).map
            (fun (outcome, _) => outcome.map Option.isSome) = some (.ok true) ∧
        ((Registry.evaluate .exceeded "a or b" (.string "s")).run later).map Prod.fst =
          some (.ok false) := by
  intro named built later
  have hnamed : Registry.ReachableFrom .standard () named :=
    Registry.ReachableFrom.bindTest (Registry.ReachableFrom.bindTest .refl (by decide) _)
      (by decide) _
  have hbuild := build_type_run .exceeded (by decide : Text.isBlankText "a or b" = false) named
  exact ⟨hnamed, Registry.operation_bindTest built (by decide) _, _, hbuild, by decide +kernel,
    by decide +kernel⟩

end Rule

end Switchboard
