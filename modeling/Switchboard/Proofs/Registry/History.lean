import Switchboard.Proofs.Registry.Composition
import Switchboard.Registry.Builtin

/-!
What can happen to a registry. Every operation, and every program of the user that
runs inside one, changes the registry by a chain of single steps: a text is compiled,
a checked binding is made, a fault is noted, the user's state or the hook is replaced.
A property that each step keeps holds therefore at every reachable state, whatever
tests and hooks the user has supplied and however they call back.
-/

namespace Switchboard

variable {ι σ α β : Type}

namespace Registry

/-- One change of a registry. -/
inductive Step : Registry σ → Registry σ → Prop
  | compile (registry : Registry σ) (source : String) :
      Step registry (registry.compile source).2
  | bind (registry checked : Registry σ) (overriding : Bool) (name : String)
      (binding : Binding σ) (h : registry.bindFault? overriding name binding = (none, checked)) :
      Step registry (checked.makeBinding name binding)
  | consult (registry : Registry σ) (fault : Fault) :
      Step registry { registry with consulted := registry.consulted ++ [fault] }
  | write (registry : Registry σ) (state : σ) : Step registry { registry with state := state }
  | setHook (registry : Registry σ) (hook : Hook σ) : Step registry { registry with hook := hook }

/-- Some changes of a registry, one after the other. -/
abbrev Steps : Registry σ → Registry σ → Prop :=
  Relation.ReflTransGen Step

/-- One call of the user, whether it succeeds or not. User programs may nest to any
depth at which the call comes to an end. -/
inductive Operation : Registry σ → Registry σ → Prop
  | define (registry after : Registry σ) (nesting : Nat) (name : String) (binding : Binding σ)
      (outcome : Except Fault Unit)
      (h : (Registry.define (.upTo nesting) name binding).run registry = some (outcome, after)) :
      Operation registry after
  | redefine (registry after : Registry σ) (nesting : Nat) (name : String)
      (binding : Binding σ) (outcome : Except Fault Unit)
      (h : (Registry.redefine (.upTo nesting) name binding).run registry = some (outcome, after)) :
      Operation registry after
  | compile (registry : Registry σ) (source : String) :
      Operation registry (registry.compile source).2
  | evaluate (registry after : Registry σ) (nesting : Nat) (source : String) (v : Value)
      (outcome : Except Fault Bool)
      (h : (Registry.evaluate (.upTo nesting) source v).run registry = some (outcome, after)) :
      Operation registry after
  | setHook (registry : Registry σ) (hook : Hook σ) :
      Operation registry { registry with hook := hook }

/-- The states that a history of calls can lead to from a new registry. -/
def ReachableFrom (options : Options) (state : σ) (registry : Registry σ) : Prop :=
  Relation.ReflTransGen Operation (Registry.new options state) registry

end Registry

open Registry (Step Steps)

/-- A run that changes the registry by steps only. -/
abbrev Run.Stepwise (run : Run σ α) : Prop :=
  run.Keeps Steps

/-- An attempt that changes the registry by steps only. -/
abbrev Attempt.Stepwise (attempt : Attempt σ α) : Prop :=
  attempt.Keeps Steps

/-- Answers that change the registry by steps only. -/
structure Answers.Stepwise (answers : Answers σ) : Prop where
  evaluate : ∀ source v, (answers.evaluate source v).Stepwise
  bindAlias : ∀ overriding name source, (answers.bindAlias overriding name source).Stepwise

theorem Program.run_stepwise {answers : Answers σ} (hanswers : answers.Stepwise)
    {call : ι → Run σ (Except Fault Value)} (hcall : ∀ request, (call request).Stepwise)
    (program : Program ι σ α) : (program.run answers call).Stepwise := by
  induction program with
  | done result => exact Run.keeps_pure result
  | evaluate source value next ih =>
      exact (hanswers.evaluate source value).bind fun answer => ih answer
  | bindAlias overriding name source next ih =>
      exact (hanswers.bindAlias overriding name source).bind fun answer => ih answer
  | readState next ih => exact Run.keeps_get.bind fun registry => ih registry.state
  | writeState state next ih =>
      exact (Run.keeps_modify fun registry => .single (.write registry state)).bind fun _ => ih
  | call request next ih => exact (hcall request).bind fun answer => ih answer

theorem Program.runClosed_stepwise {answers : Answers σ} (hanswers : answers.Stepwise)
    (program : Program Empty σ α) : (program.runClosed answers).Stepwise :=
  program.run_stepwise hanswers fun request => request.elim

theorem consult_stepwise {answers : Answers σ} (hanswers : answers.Stepwise) (fault : Fault) :
    (consult answers fault).Stepwise := by
  refine (Run.keeps_modify fun registry => .single (.consult registry fault)).bind fun _ => ?_
  exact Run.keeps_get.bind fun registry =>
    Program.runClosed_stepwise hanswers (registry.hook fault)

theorem recover_stepwise {answers : Answers σ} (hanswers : answers.Stepwise) (fault : Fault) :
    (recover answers fault).Stepwise := by
  refine Attempt.keeps_bind (Attempt.keeps_lift (consult_stepwise hanswers fault)) fun verdict => ?_
  split
  · exact Attempt.keeps_pure _
  · exact Attempt.keeps_throw fault

namespace Registry

theorem orFalse_stepwise {answers : Answers σ} (hanswers : answers.Stepwise) (fault : Fault) :
    (orFalse answers fault).Stepwise :=
  Attempt.keeps_bind (recover_stepwise hanswers fault) fun _ => Attempt.keeps_pure false

theorem compileStep_stepwise (source : String) :
    Run.Stepwise (compileStep source : Run σ Parsed) := by
  intro registry result after h
  obtain ⟨rfl, rfl⟩ := Prod.mk.inj (Option.some.inj h)
  exact .single (.compile registry source)

/-- Evaluations change the registry by steps, as compilations, tests and hooks do. -/
theorem stepwise_compositional {answers : Answers σ} (hanswers : answers.Stepwise) :
    Attempt.Compositional answers (Attempt.Stepwise (σ := σ)) where
  pure := Attempt.keeps_pure
  bind := Attempt.keeps_bind
  resolve hfollow name v := by
    refine Attempt.keeps_bind (Attempt.keeps_lift Run.keeps_get) fun registry => ?_
    split
    · exact orFalse_stepwise hanswers _
    · next test _ =>
        refine Attempt.keeps_lift ?_
        cases test with
        | kinds accepted => exact Run.keeps_pure _
        | custom body => exact Program.runClosed_stepwise hanswers (body v)
    · next source _ => exact hfollow name source v
  cyclic name := orFalse_stepwise hanswers (.cyclicType name)
  compile hnext source :=
    Attempt.keeps_bind (Attempt.keeps_lift (compileStep_stepwise source)) fun parsed =>
      hnext parsed.tree
  settings hnext :=
    Attempt.keeps_bind (Attempt.keeps_lift Run.keeps_get) fun registry =>
      hnext registry.options.maxAliasDepth

/-- Checking a binding compiles at most one text. -/
theorem steps_bindFault? (registry : Registry σ) (overriding : Bool) (name : String)
    (binding : Binding σ) : Steps registry (registry.bindFault? overriding name binding).2 := by
  unfold bindFault?
  split
  · exact .refl
  · split
    · exact .refl
    · rcases binding with test | source
      · exact .refl
      · simp only [aliasObjection?]
        split
        · exact .refl
        · exact .single (.compile registry source)

/-- A binding is made after a check that finds no fault; the fault of any other check
is shown to the hook. -/
theorem bind_run_of_fault (answers : Answers σ) {overriding : Bool} {name : String}
    {binding : Binding σ} {registry checked : Registry σ} {fault : Fault}
    (h : registry.bindFault? overriding name binding = (some fault, checked)) :
    (bind answers overriding name binding).run registry =
      (recover answers fault).run checked := by
  rw [bind, Attempt.run_get_bind, h, Attempt.run_set_bind]

theorem bind_run_of_valid (answers : Answers σ) {overriding : Bool} {name : String}
    {binding : Binding σ} {registry checked : Registry σ}
    (h : registry.bindFault? overriding name binding = (none, checked)) :
    (bind answers overriding name binding).run registry =
      some (.ok (), checked.makeBinding name binding) := by
  rw [bind, Attempt.run_get_bind, h, Attempt.run_set_bind]
  rfl

theorem bind_stepwise {answers : Answers σ} (hanswers : answers.Stepwise) (overriding : Bool)
    (name : String) (binding : Binding σ) :
    (bind answers overriding name binding).Stepwise := by
  intro registry result after h
  have h : (bind answers overriding name binding).run registry = some (result, after) := h
  have hcheck := steps_bindFault? registry overriding name binding
  rcases hfault : registry.bindFault? overriding name binding with ⟨fault, checked⟩
  rw [hfault] at hcheck
  cases fault with
  | some fault =>
      rw [bind_run_of_fault answers hfault] at h
      exact hcheck.trans (recover_stepwise hanswers fault _ _ _ h)
  | none =>
      rw [bind_run_of_valid answers hfault] at h
      cases h
      exact .single (.bind registry checked overriding name binding hfault)

/-- Whatever a registry answers to the programs of its user, it changes by steps. -/
theorem upTo_stepwise (nesting : Nat) : (Answers.upTo nesting : Answers σ).Stepwise := by
  induction nesting with
  | zero =>
      exact ⟨fun _ _ => Run.keeps_exceeded, fun _ _ _ => Run.keeps_exceeded⟩
  | succ nesting ih =>
      exact ⟨(stepwise_compositional ih).evaluate, fun overriding name source =>
        bind_stepwise ih overriding name (.alias source)⟩

theorem Operation.steps {registry after : Registry σ} (h : Operation registry after) :
    Steps registry after := by
  cases h with
  | define _ nesting name binding outcome h =>
      exact bind_stepwise (upTo_stepwise nesting) false name binding _ _ _ h
  | redefine _ nesting name binding outcome h =>
      exact bind_stepwise (upTo_stepwise nesting) true name binding _ _ _ h
  | compile source => exact .single (.compile registry source)
  | evaluate _ nesting source v outcome h =>
      exact (stepwise_compositional (upTo_stepwise nesting)).evaluate source v _ _ _ h
  | setHook hook => exact .single (.setHook registry hook)

theorem steps_of_operations {registry after : Registry σ}
    (h : Relation.ReflTransGen Operation registry after) : Steps registry after := by
  induction h with
  | refl => exact .refl
  | tail _ hlast ih => exact ih.trans hlast.steps

theorem ReachableFrom.steps {options : Options} {state : σ} {registry : Registry σ}
    (h : ReachableFrom options state registry) : Steps (new options state) registry :=
  steps_of_operations h

end Registry

end Switchboard
