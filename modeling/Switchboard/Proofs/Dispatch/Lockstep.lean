import Switchboard.Proofs.Dispatch.InTurn
import Switchboard.Proofs.Registry.Unattended
import Switchboard.Proofs.Value.Agreement

/-!
Two runs in lockstep. Where no test tells two related values apart, an evaluation takes the same
steps on both, if the relation is a congruence: every name answers the same, items of arrays are
visited in pairs, and the registries stay the same. So rules match both values or neither, and
what they find is related again: a value with the other, a default with itself, and the fields
of a shape one by one. A shape that is written over objects with the keys in another order
leaves objects that are related, so the two runs go on alike from route to route. The tests of
kinds and the built-in tests tell nothing apart that a congruence relates, and neither does a
pure test of which this is known.
-/

namespace Switchboard

variable {σ S α β γ δ : Type}

open Registry (Raises)
open Value (Congruence)

/-- The same fault, or related results. -/
inductive FaultOr (rel : α → β → Prop) : Except Fault α → Except Fault β → Prop
  | fault (fault : Fault) : FaultOr rel (.error fault) (.error fault)
  | results {left : α} {right : β} (h : rel left right) : FaultOr rel (.ok left) (.ok right)

theorem FaultOr.imp {rel rel' : α → β → Prop} (himp : ∀ x y, rel x y → rel' x y)
    {left : Except Fault α} {right : Except Fault β} (h : FaultOr rel left right) :
    FaultOr rel' left right := by
  cases h with
  | fault fault => exact .fault fault
  | results h => exact .results (himp _ _ h)

namespace Registry

/-- Every test is one of kinds or that of a built-in predicate, and the hook raises. -/
structure Stock (answers : Answers σ) (registry : Registry σ) : Prop where
  tests : ∀ name test, Table.get? name registry.bindings = some (.test test) →
    (∃ accepted, test = .kinds accepted) ∨ ∃ other, (other, Binding.test test) ∈ builtins
  raises : Raises answers registry.hook

theorem Stock.framed {answers : Answers σ} {registry after : Registry σ}
    (h : Stock answers registry) (hframed : registry.Framed after) : Stock answers after where
  tests := hframed.bindings ▸ h.tests
  raises := hframed.hook ▸ h.raises

theorem stock_new (answers : Answers σ) (options : Options) (state : σ) :
    Stock answers (new options state) where
  tests name test hbinding := by
    rw [new] at hbinding
    dsimp only at hbinding
    split at hbinding
    · exact Or.inr ⟨name, mem_of_get? hbinding⟩
    · cases hbinding
  raises := raises_raising answers

/-- The tests of built-in predicates. -/
theorem test_of_mem_builtins {name : String} {test : Test σ}
    (h : (name, Binding.test test) ∈ builtins) :
    (∃ accepted, test = .kinds accepted) ∨
      ∃ condition ∈ [isChar, isNumeric, isInt], test = .ofCondition condition := by
  simp only [builtins, List.mem_cons, List.not_mem_nil, or_false, Prod.mk.injEq,
    Binding.test.injEq, reduceCtorEq, and_false] at h
  rcases h with ⟨_, h⟩ | ⟨_, h⟩ | ⟨_, h⟩ | ⟨_, h⟩ | ⟨_, h⟩ | ⟨_, h⟩ | ⟨_, h⟩ | ⟨_, h⟩ |
    ⟨_, h⟩ | ⟨_, h⟩ | ⟨_, h⟩ | ⟨_, h⟩ | ⟨_, h⟩
  all_goals first | exact Or.inl ⟨_, h⟩ | exact Or.inr ⟨_, by simp, h⟩

theorem Stock.tests_cases {answers : Answers σ} {registry : Registry σ}
    (h : Stock answers registry) {name : String} {test : Test σ}
    (hbinding : Table.get? name registry.bindings = some (.test test)) :
    (∃ accepted, test = .kinds accepted) ∨
      ∃ condition ∈ [isChar, isNumeric, isInt], test = .ofCondition condition :=
  (h.tests name test hbinding).elim Or.inl fun ⟨_, hbuiltin⟩ => test_of_mem_builtins hbuiltin

theorem Stock.pureTests {answers : Answers σ} {registry : Registry σ}
    (h : Stock answers registry) : PureTests registry := by
  intro name body hbinding v
  rcases h.tests_cases hbinding with ⟨_, htest⟩ | ⟨condition, _, htest⟩ <;> cases htest
  exact ⟨condition v, rfl⟩

/-- Related values pass the same tests. -/
theorem Stock.holds_eq {answers : Answers σ} {registry : Registry σ}
    (h : Stock answers registry) {name : String} {test : Test σ}
    (hbinding : Table.get? name registry.bindings = some (.test test))
    {rel : Value → Value → Prop} (hrel : Congruence rel) {v w : Value} (hvw : rel v w) :
    test.holds v = test.holds w := by
  rcases h.tests_cases hbinding with ⟨accepted, rfl⟩ | ⟨condition, hcondition, rfl⟩
  · rw [Test.holds, Test.holds, hrel.kind_eq hvw]
  · have heq : condition v = condition w := by
      simp only [List.mem_cons, List.not_mem_nil, or_false] at hcondition
      rcases hcondition with rfl | rfl | rfl
      · exact hrel.isChar_eq hvw
      · exact hrel.isNumeric_eq hvw
      · exact hrel.isInt_eq hvw
    simpa only [Test.holds, Test.ofCondition] using heq

end Registry

open Registry (PureTests Stock)

/-- Two attempts that take the same steps in a registry of stock tests: they end with the same
fault or with related results, and leave the same registry. -/
def Attempt.Lockstep (answers : Answers σ) (rel : α → β → Prop) (left : Attempt σ α)
    (right : Attempt σ β) : Prop :=
  ∀ registry, Stock answers registry → ∃ outcome outcome' after,
    left.run registry = some (outcome, after) ∧ right.run registry = some (outcome', after) ∧
      FaultOr rel outcome outcome' ∧ ∀ result, outcome = .ok result → Stock answers after

/-- Two attempts that take the same steps in any registry with a property that stays. -/
def Attempt.InStep (standing : Registry σ → Prop) (rel : α → β → Prop) (left : Attempt σ α)
    (right : Attempt σ β) : Prop :=
  ∀ registry, standing registry → ∃ outcome outcome' after,
    left.run registry = some (outcome, after) ∧ right.run registry = some (outcome', after) ∧
      FaultOr rel outcome outcome' ∧ ∀ result, outcome = .ok result → standing after

section

variable {standing : Registry σ → Prop}

theorem Attempt.inStep_pure {rel : α → β → Prop} {left : α} {right : β} (h : rel left right) :
    Attempt.InStep standing rel (pure left) (pure right) :=
  fun registry hstanding => ⟨_, _, registry, rfl, rfl, .results h, fun _ _ => hstanding⟩

theorem Attempt.InStep.bind {rel : α → β → Prop} {rel' : γ → δ → Prop} {left : Attempt σ α}
    {right : Attempt σ β} {next : α → Attempt σ γ} {next' : β → Attempt σ δ}
    (h : Attempt.InStep standing rel left right)
    (hnext : ∀ x y, rel x y → Attempt.InStep standing rel' (next x) (next' y)) :
    Attempt.InStep standing rel' (left >>= next) (right >>= next') := by
  intro registry hstanding
  obtain ⟨outcome, outcome', middle, hleft, hright, hsame, hmiddle⟩ := h registry hstanding
  cases hsame with
  | fault fault =>
      refine ⟨.error fault, .error fault, middle, Attempt.run_bind_error hleft,
        Attempt.run_bind_error hright, .fault fault, ?_⟩
      intro result heq
      cases heq
  | results hxy =>
      rw [Attempt.run_bind_ok hleft, Attempt.run_bind_ok hright]
      exact hnext _ _ hxy middle (hmiddle _ rfl)

theorem Attempt.InStep.imp {rel rel' : α → β → Prop} {left : Attempt σ α}
    {right : Attempt σ β} (h : Attempt.InStep standing rel left right)
    (himp : ∀ x y, rel x y → rel' x y) : Attempt.InStep standing rel' left right := by
  intro registry hstanding
  obtain ⟨outcome, outcome', after, hleft, hright, hsame, hafter⟩ := h registry hstanding
  exact ⟨outcome, outcome', after, hleft, hright, hsame.imp himp, hafter⟩

theorem Attempt.Lockstep.imp {answers : Answers σ} {rel rel' : α → β → Prop}
    {left : Attempt σ α} {right : Attempt σ β} (h : Attempt.Lockstep answers rel left right)
    (himp : ∀ x y, rel x y → rel' x y) : Attempt.Lockstep answers rel' left right :=
  InStep.imp h himp

/-- Attempts in a row of which the first is the same on both sides. -/
theorem Attempt.InStep.bind_eq {rel : γ → δ → Prop} {left right : Attempt σ α}
    {next : α → Attempt σ γ} {next' : α → Attempt σ δ}
    (h : Attempt.InStep standing Eq left right)
    (hnext : ∀ result, Attempt.InStep standing rel (next result) (next' result)) :
    Attempt.InStep standing rel (left >>= next) (right >>= next') :=
  h.bind fun x _ heq => heq ▸ hnext x

end

namespace Registry

/-- Registries with this property do not tell related values apart: a test goes through the same
on both. Neither a test nor compiling nor a fault that is recovered from ends the property. -/
structure Blind (answers : Answers σ) (rel : Value → Value → Prop)
    (standing : Registry σ → Prop) : Prop where
  check : ∀ {registry name test v w}, standing registry →
    Table.get? name registry.bindings = some (.test test) → rel v w →
    ∃ verdict after, test.check answers v registry = some (verdict, after) ∧
      test.check answers w registry = some (verdict, after) ∧ standing after
  compile : ∀ {registry} source, standing registry → standing (registry.compile source).2
  fault : ∀ {registry} fault, standing registry → ∃ outcome after,
    (orFalse answers fault).run registry = some (outcome, after) ∧
      ∀ result, outcome = .ok result → standing after

theorem stock_blind (answers : Answers σ) {rel : Value → Value → Prop} (hrel : Congruence rel) :
    Blind answers rel (Stock answers) where
  check {registry name test v w} hstock hbinding hvw := by
    have hcheck := hstock.pureTests.check_run hbinding answers
    refine ⟨test.holds v, registry, hcheck v registry, ?_, hstock⟩
    rw [hstock.holds_eq hbinding hrel hvw]
    exact hcheck w registry
  compile source hstock := hstock.framed ⟨rfl, rfl, rfl⟩
  fault fault hstock := by
    obtain ⟨after, hrun⟩ := orFalse_run hstock.raises fault
    exact ⟨.error fault, after, hrun, fun _ heq => nomatch heq⟩

/-- Pure tests that hold of both of two related values or of neither, beside a hook that asks
nothing. -/
theorem framed_blind {base : Registry σ} (answers : Answers σ) {rel : Value → Value → Prop}
    (htests : PureTests base) (hhook : ∀ fault, (base.hook fault).Aloof)
    (hholds : ∀ name test, Table.get? name base.bindings = some (.test test) →
      ∀ v w, rel v w → test.holds v = test.holds w) : Blind answers rel base.Framed where
  check {registry name test v w} hframed hbinding hvw := by
    have hcheck := (htests.framed hframed).check_run hbinding answers
    refine ⟨test.holds v, registry, hcheck v registry, ?_, hframed⟩
    rw [hframed.bindings] at hbinding
    rw [hholds name test hbinding v w hvw]
    exact hcheck w registry
  compile source hframed := hframed.trans ⟨rfl, rfl, rfl⟩
  fault {registry} fault hframed := by
    have hregistry : registry.Unattended := (unattended_of_pureTests htests hhook).framed hframed
    obtain ⟨outcome, last, hrecover⟩ := hregistry.recover_run answers fault
    have hrun := hrecover registry rfl rfl
    cases outcome with
    | error fault => exact ⟨_, _, Attempt.run_bind_error hrun, fun _ heq => nomatch heq⟩
    | ok _ =>
        exact ⟨.ok false, _, Attempt.run_bind_ok hrun,
          fun _ _ => hframed.trans (framed_shown registry fault last)⟩

variable {answers : Answers σ} {rel : Value → Value → Prop} {standing : Registry σ → Prop}
  (hblind : Blind answers rel standing)

include hblind

theorem orFalse_inStep (fault : Fault) :
    Attempt.InStep standing Eq (orFalse answers fault) (orFalse answers fault) := by
  intro registry hstanding
  obtain ⟨outcome, after, hrun, hafter⟩ := hblind.fault fault hstanding
  refine ⟨outcome, outcome, after, hrun, hrun, ?_, hafter⟩
  cases outcome with
  | error fault => exact .fault fault
  | ok result => exact .results rfl

/-- What is done with the tree of a text is done with the same tree on both sides. -/
theorem compileStep_inStep {relResult : α → β → Prop} {next : Expr → Attempt σ α}
    {next' : Expr → Attempt σ β}
    (h : ∀ tree, Attempt.InStep standing relResult (next tree) (next' tree)) (source : String) :
    Attempt.InStep standing relResult
      (do
        let parsed ← (compileStep source : Run σ Parsed)
        next parsed.tree)
      (do
        let parsed ← (compileStep source : Run σ Parsed)
        next' parsed.tree) :=
  fun registry hstanding => h (registry.reading source) _ (hblind.compile source hstanding)

theorem resolve_inStep {follow : String → String → Value → Attempt σ Bool}
    (h : ∀ name source v w, rel v w →
      Attempt.InStep standing Eq (follow name source v) (follow name source w))
    (name : String) {v w : Value} (hvw : rel v w) :
    Attempt.InStep standing Eq (resolve answers follow name v)
      (resolve answers follow name w) := by
  intro registry hstanding
  rw [resolve_run, resolve_run]
  rcases hbinding : Table.get? name registry.bindings with _ | test | source
  · exact orFalse_inStep hblind _ registry hstanding
  · obtain ⟨verdict, after, hleft, hright, hafter⟩ := hblind.check hstanding hbinding hvw
    exact ⟨.ok verdict, .ok verdict, after, Attempt.run_lift hleft, Attempt.run_lift hright,
      .results rfl, fun _ _ => hafter⟩
  · exact h name source v w hvw registry hstanding

variable (hrel : Congruence rel)

include hrel

theorem evaluateFrom_inStep (hops : Nat) (tree : Expr) {v w : Value} (hvw : rel v w) :
    Attempt.InStep standing Eq (evaluateFrom answers hops tree v)
      (evaluateFrom answers hops tree w) := by
  induction hops generalizing tree v w with
  | zero =>
      refine Expr.evaluateWith_induction₂ (fun _ => Attempt.inStep_pure rfl)
        (fun _ _ _ _ => Attempt.InStep.bind_eq) (fun _ _ => hrel.asArray?) ?_ tree hvw
      intro name v w hvw
      refine resolve_inStep hblind ?_ name hvw
      intro name source v w _
      exact orFalse_inStep hblind (.cyclicType name)
  | succ hops ih =>
      refine Expr.evaluateWith_induction₂ (fun _ => Attempt.inStep_pure rfl)
        (fun _ _ _ _ => Attempt.InStep.bind_eq) (fun _ _ => hrel.asArray?) ?_ tree hvw
      intro name v w hvw
      refine resolve_inStep hblind ?_ name hvw
      intro name source v w hvw
      exact compileStep_inStep hblind (fun tree => ih tree hvw) source

theorem evaluateTree_inStep (tree : Expr) {v w : Value} (hvw : rel v w) :
    Attempt.InStep standing Eq (evaluateTree answers tree v) (evaluateTree answers tree w) :=
  fun registry hstanding =>
    evaluateFrom_inStep hblind hrel registry.options.maxAliasDepth tree hvw registry hstanding

theorem evaluate_inStep (source : String) {v w : Value} (hvw : rel v w) :
    Attempt.InStep standing Eq (evaluate answers source v) (evaluate answers source w) :=
  compileStep_inStep hblind (fun tree => evaluateTree_inStep hblind hrel tree hvw) source

omit hblind

theorem evaluateTree_lockstep (tree : Expr) {v w : Value} (hvw : rel v w) :
    Attempt.Lockstep answers Eq (evaluateTree answers tree v) (evaluateTree answers tree w) :=
  evaluateTree_inStep (stock_blind answers hrel) hrel tree hvw

theorem evaluate_lockstep (source : String) {v w : Value} (hvw : rel v w) :
    Attempt.Lockstep answers Eq (evaluate answers source v) (evaluate answers source w) :=
  evaluate_inStep (stock_blind answers hrel) hrel source hvw

end Registry

end Switchboard
