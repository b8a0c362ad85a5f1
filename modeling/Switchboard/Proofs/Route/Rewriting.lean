import Switchboard.Proofs.Dispatch.Ending
import Switchboard.Proofs.Route.InPlace
import Switchboard.Registry.Builtin

/-!
What a test of a route does to the arguments. The rules are tested from left to right, up to
the first fault or mismatch; the route matches if there are not too many arguments and all
rules match. Then the arguments are settled, one slot per rule; otherwise they stay as they
were. It makes no difference whether a missing argument is written out as `undefined`.
-/

namespace Switchboard

variable {σ S : Type} {answers : Answers σ} {route : Route σ S} {arguments : List Value}
  {registry after : Registry σ}

/-- The slots that the matches of rules leave of arguments: one per rule, each settled by
its rule. -/
structure Rule.SettlesAll (rules : List Rule) (arguments : List Value) (found : List Match)
    (slots : List Value) : Prop where
  length_eq : slots.length = rules.length
  settles : ∀ (position : Nat) (rule : Rule), rules[position]? = some rule →
    ∃ foundHere slot, found[position]? = some foundHere ∧ slots[position]? = some slot ∧
      rule.Settles (arguments[position]?.getD .undefined) foundHere slot

/-- Rules that match in turn settle the arguments. -/
theorem Rule.settlesAll_of_inTurn {rules : List Rule}
    (hdistinct : ∀ rule ∈ rules, rule.DistinctFields) {found : List Match}
    (h : Attempt.InTurn (tests answers rules arguments) registry (found.map some) after) :
    Rule.SettlesAll rules arguments found (Match.settleAll found arguments) := by
  have hlength : found.length = rules.length := length_of_testAll (testAll_eq_some_iff.mpr h)
  refine ⟨(Match.length_settleAll found arguments).trans hlength, fun position rule hrule => ?_⟩
  have htest : (tests answers rules arguments)[position]? =
      some (rule.test answers (arguments[position]?.getD .undefined)) := by
    rw [getElem?_tests, hrule, Option.map_some]
  obtain ⟨result, before, middle, hresult, hrun⟩ := h.exists_run htest
  rw [List.getElem?_map] at hresult
  obtain ⟨here, hhere, rfl⟩ := Option.map_eq_some_iff.mp hresult
  refine ⟨here, _, hhere, ?_, settles_of_test (hdistinct rule (List.mem_of_getElem? hrule)) hrun⟩
  rw [Match.getElem?_settleAll, hhere, Option.map_some]

namespace Route

/-- A route with too few rules refuses; else the matches of all rules settle the arguments. -/
theorem test_run (answers : Answers σ) (route : Route σ S) (arguments : List Value)
    (registry : Registry σ) :
    (route.test answers arguments).run registry =
      if route.rules.length < arguments.length then some (.ok none, registry)
      else ((Rule.testAll answers route.rules arguments).run registry).map
        fun (outcome, after) =>
          (outcome.map (Option.map fun found => Match.settleAll found arguments), after) := by
  rw [test]
  split
  · rfl
  · change ((Rule.testAll answers route.rules arguments).run registry).bind _ = _
    rcases (Rule.testAll answers route.rules arguments).run registry with _ | ⟨_ | _, _⟩ <;> rfl

theorem test_eq_some_iff {settled : List Value} :
    (route.test answers arguments).run registry = some (.ok (some settled), after) ↔
      arguments.length ≤ route.rules.length ∧ ∃ found : List Match,
        Attempt.InTurn (Rule.tests answers route.rules arguments) registry (found.map some) after ∧
          settled = Match.settleAll found arguments := by
  simp only [← Rule.testAll_eq_some_iff, test_run, ← Nat.not_lt]
  split
  · next hlength => simp [hlength]
  · next hlength =>
      simp only [hlength, not_false_eq_true, true_and, Option.map_eq_some_iff, Prod.exists,
        Prod.mk.injEq]
      constructor
      · rintro ⟨_ | _ | found, _, hrun, heq, rfl⟩ <;> cases heq
        exact ⟨found, hrun, rfl⟩
      · rintro ⟨found, hrun, rfl⟩
        exact ⟨_, after, hrun, rfl, rfl⟩

/-- A route refuses if there are too many arguments, or at the first rule that does not
match; it fails at the first rule that fails. -/
theorem test_eq_refusal_iff {fault? : Option Fault} :
    (route.test answers arguments).run registry = some (Rule.refusal fault?, after) ↔
      (route.rules.length < arguments.length ∧ fault? = none ∧ after = registry) ∨
        (arguments.length ≤ route.rules.length ∧ ∃ found : List Match,
          Attempt.Reaches (Rule.tests answers route.rules arguments) registry (found.map some)
            (Rule.refusal fault?) after) := by
  rw [← Rule.testAll_eq_refusal_iff, test_run, ← Nat.not_lt]
  split
  · next hlength =>
      simp only [hlength, true_and, not_true_eq_false, false_and, or_false, Option.some.injEq,
        Prod.mk.injEq]
      refine and_congr ?_ eq_comm
      cases fault? <;> simp [Rule.refusal]
  · next hlength =>
      simp only [hlength, false_and, false_or, not_false_eq_true, true_and,
        Option.map_eq_some_iff, Prod.exists, Prod.mk.injEq]
      constructor
      · rintro ⟨outcome, _, hrun, heq, rfl⟩
        rw [hrun]
        rcases fault? with _ | fault <;> rcases outcome with _ | _ | _ <;> cases heq <;> rfl
      · intro hrun
        refine ⟨Rule.refusal fault?, after, hrun, ?_, rfl⟩
        cases fault? <;> rfl

/-- What a test in place says and leaves, by what the test comes to. -/
theorem testInPlace_eq_some_iff {verdict : Except Fault Bool} {slots : List Value} :
    (route.testInPlace answers).run arguments registry = some ((verdict, slots), after) ↔
      ∃ outcome, (route.test answers arguments).run registry = some (outcome, after) ∧
        verdict = outcome.map Option.isSome ∧ slots = argumentsAfter arguments outcome := by
  rw [testInPlace_run, Option.map_eq_some_iff, Prod.exists]
  simp only [Prod.mk.injEq]
  constructor
  · rintro ⟨outcome, _, hrun, ⟨rfl, rfl⟩, rfl⟩
    exact ⟨outcome, hrun, rfl, rfl⟩
  · rintro ⟨outcome, hrun, rfl, rfl⟩
    exact ⟨outcome, after, hrun, ⟨rfl, rfl⟩, rfl⟩

/-- A missing argument may be written out, as long as there are not too many. -/
theorem test_append_undefined {count : Nat}
    (h : arguments.length + count ≤ route.rules.length) :
    route.test answers (arguments ++ List.replicate count .undefined) =
      route.test answers arguments := by
  have hlong : ¬ route.rules.length < (arguments ++ List.replicate count Value.undefined).length := by
    rw [List.length_append, List.length_replicate]
    omega
  have hshort : ¬ route.rules.length < arguments.length := by omega
  rw [test, test, if_neg hlong, if_neg hshort, Rule.testAll_append_undefined]
  simp only [Match.settleAll_append_undefined]

/-- A test in place comes to an end if the tests of the registry and its hook leave it alone.
It matches if there are not too many arguments and every rule matches its own in turn, and then
the arguments are settled, slot by slot. It refuses if there are too many arguments or at the
first rule that does not match, and fails at the first rule that fails; then the arguments are
as before. Missing arguments that are written out as `undefined` change neither the verdict
nor the settled arguments. -/
theorem testInPlace_exact (answers : Answers σ) (route : Route σ S)
    (hdistinct : ∀ rule ∈ route.rules, rule.DistinctFields) (arguments : List Value)
    (registry : Registry σ) :
    let tests := Rule.tests answers route.rules arguments
    let run := (route.testInPlace answers).run
    (registry.Unattended →
      ∃ verdict slots after, run arguments registry = some ((verdict, slots), after)) ∧
    (∀ after, (∃ slots, run arguments registry = some ((.ok true, slots), after)) ↔
      arguments.length ≤ route.rules.length ∧
        ∃ found : List Match, Attempt.InTurn tests registry (found.map some) after) ∧
    (∀ slots after, run arguments registry = some ((.ok true, slots), after) →
      ∃ found : List Match, Attempt.InTurn tests registry (found.map some) after ∧
        Rule.SettlesAll route.rules arguments found slots) ∧
    (∀ slots after, run arguments registry = some ((.ok false, slots), after) ↔
      slots = arguments ∧ ((route.rules.length < arguments.length ∧ after = registry) ∨
        (arguments.length ≤ route.rules.length ∧ ∃ found : List Match,
          Attempt.Reaches tests registry (found.map some) (.ok none) after))) ∧
    (∀ fault slots after, run arguments registry = some ((.error fault, slots), after) ↔
      slots = arguments ∧ arguments.length ≤ route.rules.length ∧ ∃ found : List Match,
        Attempt.Reaches tests registry (found.map some) (.error fault) after) ∧
    ∀ count, arguments.length + count ≤ route.rules.length → ∀ verdict slots after,
      run arguments registry = some ((verdict, slots), after) → ∃ slots',
        run (arguments ++ List.replicate count .undefined) registry =
          some ((verdict, slots'), after) ∧ (verdict = .ok true → slots' = slots) := by
  intro tests run
  have hmatch (slots : List Value) (after : Registry σ) :
      run arguments registry = some ((.ok true, slots), after) ↔
        (route.test answers arguments).run registry = some (.ok (some slots), after) := by
    refine testInPlace_eq_some_iff.trans ⟨?_, fun hrun => ⟨_, hrun, rfl, rfl⟩⟩
    rintro ⟨_ | _ | settled, hrun, heq, rfl⟩ <;> cases heq
    exact hrun
  have hrefusal (fault? : Option Fault) (slots : List Value) (after : Registry σ) :
      run arguments registry =
          some (((Rule.refusal fault?).map fun (_ : Option Unit) => false, slots), after) ↔
        slots = arguments ∧
          (route.test answers arguments).run registry = some (Rule.refusal fault?, after) := by
    refine testInPlace_eq_some_iff.trans ⟨?_, fun ⟨hslots, hrun⟩ => ⟨_, hrun, ?_, ?_⟩⟩
    · rintro ⟨_ | _ | settled, hrun, heq, rfl⟩ <;> cases fault? <;> cases heq <;>
        exact ⟨rfl, hrun⟩
    · cases fault? <;> rfl
    · cases fault? <;> exact hslots
  refine ⟨fun hregistry => ?_, fun after => ?_, fun slots after hrun => ?_, fun slots after => ?_,
    fun fault slots after => ?_, fun count hcount verdict slots after hrun => ?_⟩
  · obtain ⟨outcome, after, hrun, _⟩ :=
      (ends_compositional answers).routeTest route arguments registry hregistry trivial
    exact ⟨_, _, after, testInPlace_eq_some_iff.mpr ⟨outcome, hrun, rfl, rfl⟩⟩
  · simp only [hmatch, test_eq_some_iff, exists_and_left]
    refine and_congr Iff.rfl ⟨fun ⟨_, found, hfound, _⟩ => ⟨found, hfound⟩, ?_⟩
    exact fun ⟨found, hfound⟩ => ⟨_, found, hfound, rfl⟩
  · obtain ⟨_, found, hfound, rfl⟩ := test_eq_some_iff.mp ((hmatch slots after).mp hrun)
    exact ⟨found, hfound, Rule.settlesAll_of_inTurn hdistinct hfound⟩
  · refine (hrefusal none slots after).trans (and_congr Iff.rfl ?_)
    rw [test_eq_refusal_iff]
    simp only [true_and]
    rfl
  · refine (hrefusal (some fault) slots after).trans (and_congr Iff.rfl ?_)
    rw [test_eq_refusal_iff]
    simp only [reduceCtorEq, false_and, and_false, false_or]
    rfl
  · obtain ⟨outcome, htest, rfl, rfl⟩ := testInPlace_eq_some_iff.mp hrun
    rw [← test_append_undefined hcount] at htest
    refine ⟨_, testInPlace_eq_some_iff.mpr ⟨outcome, htest, rfl, rfl⟩, ?_⟩
    rcases outcome with _ | _ | settled
    · rintro ⟨⟩
    · rintro ⟨⟩
    · exact fun _ => rfl

/-- An object with a known, a declared and no further field gets the declared field it lacks, a
missing argument its default. -/
theorem testInPlace_exact_merged :
    let number : Rule := .scalar "number" (.named "number") (some (.number .zero))
    let string : Rule := .scalar "string" (.named "string") none
    let route : Route Unit Unit := ⟨[.shape [("size", number), ("name", string)] none, number],
      fun _ => .done (.ok .undefined)⟩
    let arguments : List Value := [.object [("color", .string "red"), ("name", .string "box")]]
    let settled : List Value := [.object [("color", .string "red"), ("name", .string "box"),
      ("size", .number .zero)], .number .zero]
    ∃ after, (route.testInPlace .exceeded).run arguments (Registry.new .standard ()) =
        some ((.ok true, settled), after) ∧
      ∃ found, Rule.SettlesAll route.rules arguments found settled := by
  intro number string route arguments settled
  have hsettled : ((route.testInPlace .exceeded).run arguments (Registry.new .standard ())).map
      Prod.fst = some (.ok true, settled) := by with_unfolding_all rfl
  obtain ⟨⟨_, after⟩, hrun, rfl⟩ := Option.map_eq_some_iff.mp hsettled
  have hdistinct : ∀ rule ∈ route.rules, rule.DistinctFields := by
    intro rule hrule
    rcases List.mem_pair.mp hrule with rfl | rfl
    · exact (by decide : ["size", "name"].Nodup)
    · trivial
  obtain ⟨_, _, hmatch, _⟩ :=
    testInPlace_exact .exceeded route hdistinct arguments (Registry.new .standard ())
  obtain ⟨found, _, hsettles⟩ := hmatch settled _ hrun
  exact ⟨_, hrun, found, hsettles⟩

end Route

end Switchboard
