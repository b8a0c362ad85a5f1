import Switchboard.Dispatcher
import Switchboard.Proofs.Registry.Agreement

/-!
Attempts in turn. The rules of a route and the routes of a table are tested one after the
other, each in the registry that the test before it leaves, up to the first that decides.
Here that order is a relation of its own, over a list of attempts: all succeed in turn, or
those before one of them do and that one decides.
-/

namespace Switchboard

variable {σ S α β : Type}

namespace Attempt

/-- All attempts succeed in turn with these results, each in the registry that the one
before it leaves. -/
inductive InTurn : List (Attempt σ α) → Registry σ → List α → Registry σ → Prop
  | nil (registry : Registry σ) : InTurn [] registry [] registry
  | cons {attempt : Attempt σ α} {attempts : List (Attempt σ α)}
      {registry middle after : Registry σ} {result : α} {results : List α}
      (hrun : attempt.run registry = some (.ok result, middle))
      (hrest : InTurn attempts middle results after) :
      InTurn (attempt :: attempts) registry (result :: results) after

/-- The first attempts succeed in turn with these results, and the next one then has this
outcome. -/
inductive Reaches : List (Attempt σ α) → Registry σ → List α → Except Fault α → Registry σ → Prop
  | here {attempt : Attempt σ α} {attempts : List (Attempt σ α)} {registry after : Registry σ}
      {outcome : Except Fault α} (hrun : attempt.run registry = some (outcome, after)) :
      Reaches (attempt :: attempts) registry [] outcome after
  | later {attempt : Attempt σ α} {attempts : List (Attempt σ α)}
      {registry middle after : Registry σ} {result : α} {results : List α}
      {outcome : Except Fault α} (hrun : attempt.run registry = some (.ok result, middle))
      (hrest : Reaches attempts middle results outcome after) :
      Reaches (attempt :: attempts) registry (result :: results) outcome after

theorem inTurn_nil_iff {registry after : Registry σ} {results : List α} :
    InTurn [] registry results after ↔ results = [] ∧ after = registry := by
  constructor
  · rintro ⟨⟩
    exact ⟨rfl, rfl⟩
  · rintro ⟨rfl, rfl⟩
    exact .nil after

theorem inTurn_cons_iff {attempt : Attempt σ α} {attempts : List (Attempt σ α)}
    {registry after : Registry σ} {results : List α} :
    InTurn (attempt :: attempts) registry results after ↔
      ∃ result rest middle, results = result :: rest ∧
        attempt.run registry = some (.ok result, middle) ∧ InTurn attempts middle rest after := by
  constructor
  · rintro ⟨⟩
    next hrun hrest => exact ⟨_, _, _, rfl, hrun, hrest⟩
  · rintro ⟨result, rest, middle, rfl, hrun, hrest⟩
    exact .cons hrun hrest

theorem not_reaches_nil {registry after : Registry σ} {results : List α}
    {outcome : Except Fault α} : ¬ Reaches [] registry results outcome after := by
  rintro ⟨⟩

theorem reaches_cons_iff {attempt : Attempt σ α} {attempts : List (Attempt σ α)}
    {registry after : Registry σ} {results : List α} {outcome : Except Fault α} :
    Reaches (attempt :: attempts) registry results outcome after ↔
      (results = [] ∧ attempt.run registry = some (outcome, after)) ∨
        ∃ result rest middle, results = result :: rest ∧
          attempt.run registry = some (.ok result, middle) ∧
            Reaches attempts middle rest outcome after := by
  constructor
  · intro h
    cases h with
    | here hrun => exact Or.inl ⟨rfl, hrun⟩
    | later hrun hrest => exact Or.inr ⟨_, _, _, rfl, hrun, hrest⟩
  · rintro (⟨rfl, hrun⟩ | ⟨result, rest, middle, rfl, hrun, hrest⟩)
    · exact .here hrun
    · exact .later hrun hrest

theorem InTurn.length_eq {attempts : List (Attempt σ α)} {registry after : Registry σ}
    {results : List α} (h : InTurn attempts registry results after) :
    results.length = attempts.length := by
  induction h with
  | nil => rfl
  | cons _ _ ih => rw [List.length_cons, List.length_cons, ih]

/-- Each attempt has succeeded with its result. -/
theorem InTurn.exists_run {attempts : List (Attempt σ α)} {registry after : Registry σ}
    {results : List α} (h : InTurn attempts registry results after) {position : Nat}
    {attempt : Attempt σ α} (hattempt : attempts[position]? = some attempt) :
    ∃ result before middle, results[position]? = some result ∧
      attempt.run before = some (.ok result, middle) := by
  induction h generalizing position with
  | nil => cases hattempt
  | cons hrun _ ih =>
      cases position with
      | zero =>
          cases hattempt
          exact ⟨_, _, _, rfl, hrun⟩
      | succ position => exact ih hattempt

/-- Attempts succeed in turn if the first ones do, and the others after them. -/
theorem InTurn.append {attempts more : List (Attempt σ α)} {registry middle after : Registry σ}
    {results others : List α} (h : InTurn attempts registry results middle)
    (hmore : InTurn more middle others after) :
    InTurn (attempts ++ more) registry (results ++ others) after := by
  induction h with
  | nil => exact hmore
  | cons hrun _ ih => exact .cons hrun (ih hmore)

/-- There is an attempt behind those that have succeeded. -/
theorem Reaches.exists_getElem? {attempts : List (Attempt σ α)} {registry after : Registry σ}
    {results : List α} {outcome : Except Fault α}
    (h : Reaches attempts registry results outcome after) :
    ∃ attempt, attempts[results.length]? = some attempt := by
  induction h with
  | here => exact ⟨_, rfl⟩
  | later _ _ ih => exact ih

/-- What has been reached is reached with more attempts after it too. -/
theorem Reaches.append {attempts : List (Attempt σ α)} {registry after : Registry σ}
    {results : List α} {outcome : Except Fault α}
    (h : Reaches attempts registry results outcome after) (more : List (Attempt σ α)) :
    Reaches (attempts ++ more) registry results outcome after := by
  induction h with
  | here hrun => exact .here hrun
  | later hrun _ ih => exact .later hrun ih

end Attempt

namespace Rule

variable {answers : Answers σ}

/-- The tests of rules on arguments, `undefined` standing for a missing one. -/
def tests (answers : Answers σ) (rules : List Rule) (arguments : List Value) :
    List (Attempt σ (Option Match)) :=
  rules.mapIdx fun position rule => rule.test answers (arguments[position]?.getD .undefined)

theorem tests_cons (answers : Answers σ) (rule : Rule) (rules : List Rule)
    (arguments : List Value) :
    tests answers (rule :: rules) arguments =
      rule.test answers (arguments.headD .undefined) :: tests answers rules arguments.tail := by
  cases arguments <;> simp [tests, List.mapIdx_cons]

theorem getElem?_tests (answers : Answers σ) (rules : List Rule) (arguments : List Value)
    (position : Nat) :
    (tests answers rules arguments)[position]? = rules[position]?.map fun rule =>
      rule.test answers (arguments[position]?.getD .undefined) := by
  rw [tests, List.getElem?_mapIdx]

variable {registry after : Registry σ}

/-- Testing a list of rules has a fault or a mismatch of the first rule for its outcome,
or that of the other rules with the match in front. -/
theorem testAll_cons_eq_some_iff {rule : Rule} {rules : List Rule} {arguments : List Value}
    {outcome : Except Fault (Option (List Match))} :
    (testAll answers (rule :: rules) arguments).run registry = some (outcome, after) ↔
      (∃ fault, (rule.test answers (arguments.headD .undefined)).run registry =
          some (.error fault, after) ∧ outcome = .error fault) ∨
        ((rule.test answers (arguments.headD .undefined)).run registry =
          some (.ok none, after) ∧ outcome = .ok none) ∨
        ∃ found middle others,
          (rule.test answers (arguments.headD .undefined)).run registry =
            some (.ok (some found), middle) ∧
          (testAll answers rules arguments.tail).run middle = some (others, after) ∧
          outcome = others.map (Option.map (found :: ·)) := by
  rw [testAll, Attempt.run_bind_eq_some_iff]
  refine or_congr Iff.rfl ?_
  constructor
  · rintro ⟨result, middle, hfirst, hrest⟩
    cases result with
    | none =>
        obtain ⟨houtcome, rfl⟩ := Attempt.run_pure_eq_some_iff.mp hrest
        exact Or.inl ⟨hfirst, houtcome⟩
    | some found =>
        refine Or.inr ⟨found, middle, ?_⟩
        rcases Attempt.run_bind_eq_some_iff.mp hrest with
          ⟨fault, hothers, rfl⟩ | ⟨others, last, hothers, hlast⟩
        · exact ⟨.error fault, hfirst, hothers, rfl⟩
        · obtain ⟨rfl, rfl⟩ := Attempt.run_pure_eq_some_iff.mp hlast
          exact ⟨.ok others, hfirst, hothers, rfl⟩
  · rintro (⟨hfirst, rfl⟩ | ⟨found, middle, others, hfirst, hothers, rfl⟩)
    · exact ⟨none, after, hfirst, rfl⟩
    · refine ⟨some found, middle, hfirst, ?_⟩
      cases others with
      | error fault => exact Attempt.run_bind_error hothers
      | ok others => exact Attempt.run_bind_ok hothers

theorem testAll_nil_eq_some_iff {arguments : List Value}
    {outcome : Except Fault (Option (List Match))} :
    (testAll answers [] arguments).run registry = some (outcome, after) ↔
      outcome = .ok (some []) ∧ after = registry := by
  rw [testAll]
  exact Attempt.run_pure_eq_some_iff

/-- All rules match if their tests find something in turn. -/
theorem testAll_eq_some_iff {rules : List Rule} {arguments : List Value} {found : List Match} :
    (testAll answers rules arguments).run registry = some (.ok (some found), after) ↔
      Attempt.InTurn (tests answers rules arguments) registry (found.map some) after := by
  induction rules generalizing arguments registry found with
  | nil =>
      rw [testAll_nil_eq_some_iff]
      simp [tests, Attempt.inTurn_nil_iff]
  | cons rule rules ih =>
      rw [testAll_cons_eq_some_iff, tests_cons, Attempt.inTurn_cons_iff]
      constructor
      · rintro (⟨fault, _, ⟨⟩⟩ | ⟨_, ⟨⟩⟩ | ⟨first, middle, others, hfirst, hothers, houtcome⟩)
        rcases others with fault | _ | others
        · cases houtcome
        · cases houtcome
        · cases houtcome
          exact ⟨some first, others.map some, middle, rfl, hfirst, ih.mp hothers⟩
      · rintro ⟨result, rest, middle, hfound, hfirst, hrest⟩
        cases found with
        | nil => cases hfound
        | cons first others =>
            cases hfound
            exact Or.inr (Or.inr ⟨first, middle, .ok (some others), hfirst, ih.mpr hrest, rfl⟩)

/-- The outcome of a test that finds nothing: a fault, or no match. -/
def refusal : Option Fault → Except Fault (Option α)
  | some fault => .error fault
  | none => .ok none

/-- Testing a list of rules finds nothing if the tests before one find something in turn and
that one finds nothing. -/
theorem testAll_eq_refusal_iff {rules : List Rule} {arguments : List Value}
    {fault? : Option Fault} :
    (testAll answers rules arguments).run registry = some (refusal fault?, after) ↔
      ∃ found : List Match, Attempt.Reaches (tests answers rules arguments) registry
        (found.map some) (refusal fault?) after := by
  induction rules generalizing arguments registry with
  | nil =>
      rw [testAll_nil_eq_some_iff]
      simp only [tests, List.mapIdx_nil, Attempt.not_reaches_nil, exists_false, iff_false]
      rintro ⟨houtcome, _⟩
      cases fault? <;> cases houtcome
  | cons rule rules ih =>
      rw [testAll_cons_eq_some_iff, tests_cons]
      constructor
      · rintro (⟨fault, hfault, heq⟩ | ⟨hnone, heq⟩ |
          ⟨first, middle, others, hfirst, hothers, heq⟩)
        · refine ⟨[], .here ?_⟩
          cases fault? <;> cases heq
          exact hfault
        · refine ⟨[], .here ?_⟩
          cases fault? <;> cases heq
          exact hnone
        · have hrefusal : others = refusal fault? := by
            rcases fault? with _ | fault <;> rcases others with fault | _ | others <;> cases heq
            · rfl
            · rfl
          obtain ⟨found, hfound⟩ := ih.mp (hrefusal ▸ hothers)
          exact ⟨first :: found, .later hfirst hfound⟩
      · rintro ⟨found, hfound⟩
        rcases Attempt.reaches_cons_iff.mp hfound with
          ⟨_, hrun⟩ | ⟨result, rest, middle, hresults, hfirst, hrest⟩
        · cases fault? with
          | none => exact Or.inr (Or.inl ⟨hrun, rfl⟩)
          | some fault => exact Or.inl ⟨fault, hrun, rfl⟩
        · cases found with
          | nil => cases hresults
          | cons first others =>
              cases hresults
              refine Or.inr (Or.inr ⟨first, middle, refusal fault?, hfirst, ?_, ?_⟩)
              · exact ih.mpr ⟨others, hrest⟩
              · cases fault? <;> rfl

end Rule

namespace Dispatcher

variable {answers : Answers σ} {arguments : List Value} {registry after : Registry σ}

/-- The tests of routes, all on the same arguments. -/
def tests (answers : Answers σ) (routes : List (Route σ S)) (arguments : List Value) :
    List (Attempt σ (Option (List Value))) :=
  routes.map fun route => route.test answers arguments

theorem tests_cons (answers : Answers σ) (route : Route σ S) (rest : List (Route σ S))
    (arguments : List Value) :
    tests answers (route :: rest) arguments =
      route.test answers arguments :: tests answers rest arguments :=
  rfl

/-- What holds of the test of every route holds of the tests of a table. -/
theorem forall_tests {good : Attempt σ (Option (List Value)) → Prop}
    (h : ∀ route : Route σ S, good (route.test answers arguments)) (routes : List (Route σ S)) :
    ∀ attempt ∈ tests answers routes arguments, good attempt := by
  intro attempt hattempt
  obtain ⟨route, _, rfl⟩ := List.mem_map.mp hattempt
  exact h route

theorem tests_append (answers : Answers σ) (routes more : List (Route σ S))
    (arguments : List Value) :
    tests answers (routes ++ more) arguments =
      tests answers routes arguments ++ tests answers more arguments :=
  List.map_append

theorem select_cons_eq_some_iff {start : Nat} {route : Route σ S} {rest : List (Route σ S)}
    {outcome : Except Fault (Option (Nat × Route σ S × List Value))} :
    (select answers arguments start (route :: rest)).run registry = some (outcome, after) ↔
      (∃ fault, (route.test answers arguments).run registry = some (.error fault, after) ∧
          outcome = .error fault) ∨
        (∃ settled, (route.test answers arguments).run registry =
          some (.ok (some settled), after) ∧ outcome = .ok (some (start, route, settled))) ∨
        ∃ middle, (route.test answers arguments).run registry = some (.ok none, middle) ∧
          (select answers arguments (start + 1) rest).run middle = some (outcome, after) := by
  rw [select, Attempt.run_bind_eq_some_iff]
  refine or_congr Iff.rfl ?_
  constructor
  · rintro ⟨result, middle, hfirst, hrest⟩
    cases result with
    | none => exact Or.inr ⟨middle, hfirst, hrest⟩
    | some settled =>
        obtain ⟨houtcome, rfl⟩ := Attempt.run_pure_eq_some_iff.mp hrest
        exact Or.inl ⟨settled, hfirst, houtcome⟩
  · rintro (⟨settled, hfirst, rfl⟩ | ⟨middle, hfirst, hrest⟩)
    · exact ⟨some settled, after, hfirst, rfl⟩
    · exact ⟨none, middle, hfirst, hrest⟩

theorem select_nil_eq_some_iff {start : Nat}
    {outcome : Except Fault (Option (Nat × Route σ S × List Value))} :
    (select answers arguments start []).run registry = some (outcome, after) ↔
      outcome = .ok none ∧ after = registry := by
  rw [select]
  exact Attempt.run_pure_eq_some_iff

/-- The tests of a table reach an outcome at its first route, or at a later one after the
first has refused. -/
theorem reaches_tests_cons_iff {route : Route σ S} {rest : List (Route σ S)} {refused : Nat}
    {outcome : Except Fault (Option (List Value))} :
    Attempt.Reaches (tests answers (route :: rest) arguments) registry
        (List.replicate refused none) outcome after ↔
      (refused = 0 ∧ (route.test answers arguments).run registry = some (outcome, after)) ∨
        ∃ others middle, refused = others + 1 ∧
          (route.test answers arguments).run registry = some (.ok none, middle) ∧
          Attempt.Reaches (tests answers rest arguments) middle
            (List.replicate others none) outcome after := by
  rw [tests_cons, Attempt.reaches_cons_iff]
  cases refused with
  | zero => simp
  | succ others => simp [List.replicate_succ]

/-- The route that is selected is the first that does not refuse the arguments. -/
theorem select_eq_some_iff {start ordinal : Nat} {routes : List (Route σ S)} {route : Route σ S}
    {settled : List Value} :
    (select answers arguments start routes).run registry =
        some (.ok (some (ordinal, route, settled)), after) ↔
      ∃ refused, ordinal = start + refused ∧ routes[refused]? = some route ∧
        Attempt.Reaches (tests answers routes arguments) registry (List.replicate refused none)
          (.ok (some settled)) after := by
  induction routes generalizing start registry with
  | nil => simp [select_nil_eq_some_iff, tests, Attempt.not_reaches_nil]
  | cons first rest ih =>
      simp only [select_cons_eq_some_iff, reaches_tests_cons_iff]
      constructor
      · rintro (⟨fault, _, ⟨⟩⟩ | ⟨_, hfirst, heq⟩ | ⟨middle, hfirst, hrest⟩)
        · cases heq
          exact ⟨0, rfl, rfl, Or.inl ⟨rfl, hfirst⟩⟩
        · obtain ⟨refused, rfl, hroute, hreaches⟩ := ih.mp hrest
          exact ⟨refused + 1, by omega, hroute, Or.inr ⟨refused, middle, rfl, hfirst, hreaches⟩⟩
      · rintro ⟨refused, rfl, hroute, ⟨rfl, hfirst⟩ | ⟨others, middle, rfl, hfirst, hrest⟩⟩
        · cases hroute
          exact Or.inr (Or.inl ⟨settled, hfirst, rfl⟩)
        · exact Or.inr (Or.inr ⟨middle, hfirst, ih.mpr ⟨others, by omega, hroute, hrest⟩⟩)

/-- Selecting a route fails if the first route that does not refuse the arguments does. -/
theorem select_eq_error_iff {start : Nat} {routes : List (Route σ S)} {fault : Fault} :
    (select answers arguments start routes).run registry = some (.error fault, after) ↔
      ∃ refused, Attempt.Reaches (tests answers routes arguments) registry
        (List.replicate refused none) (.error fault) after := by
  induction routes generalizing start registry with
  | nil => simp [select_nil_eq_some_iff, tests, Attempt.not_reaches_nil]
  | cons first rest ih =>
      simp only [select_cons_eq_some_iff, reaches_tests_cons_iff]
      constructor
      · rintro (⟨other, hfirst, heq⟩ | ⟨_, _, ⟨⟩⟩ | ⟨middle, hfirst, hrest⟩)
        · cases heq
          exact ⟨0, Or.inl ⟨rfl, hfirst⟩⟩
        · obtain ⟨refused, hreaches⟩ := ih.mp hrest
          exact ⟨refused + 1, Or.inr ⟨refused, middle, rfl, hfirst, hreaches⟩⟩
      · rintro ⟨refused, ⟨rfl, hfirst⟩ | ⟨others, middle, rfl, hfirst, hrest⟩⟩
        · exact Or.inl ⟨fault, hfirst, rfl⟩
        · exact Or.inr (Or.inr ⟨middle, hfirst, ih.mpr ⟨others, hrest⟩⟩)

/-- No route is selected if all of them refuse the arguments. -/
theorem select_eq_none_iff {start : Nat} {routes : List (Route σ S)} :
    (select answers arguments start routes).run registry = some (.ok none, after) ↔
      Attempt.InTurn (tests answers routes arguments) registry
        (List.replicate routes.length none) after := by
  induction routes generalizing start registry with
  | nil => simp [select_nil_eq_some_iff, tests, Attempt.inTurn_nil_iff]
  | cons first rest ih =>
      rw [select_cons_eq_some_iff, tests_cons, Attempt.inTurn_cons_iff]
      constructor
      · rintro (⟨_, _, ⟨⟩⟩ | ⟨_, _, ⟨⟩⟩ | ⟨middle, hfirst, hrest⟩)
        exact ⟨none, _, middle, rfl, hfirst, ih.mp hrest⟩
      · rintro ⟨result, others, middle, hresults, hfirst, hrest⟩
        cases hresults
        exact Or.inr (Or.inr ⟨middle, hfirst, ih.mpr hrest⟩)

end Dispatcher

end Switchboard
