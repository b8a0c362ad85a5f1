import Switchboard.Program
import Switchboard.Registry.Cache

/-!
Registries: named predicates, the compile cache, and the hook that sees every fault.
A registry also carries the user's state and the list of faults its hook has been
consulted on. An operation on a registry is a `Run`; it has no result only when the
user's programs nest deeper than they were allowed to. An `Attempt` is a run that may
end in a fault, and what it did to the registry before the fault stays done.
-/

namespace Switchboard

/-- Settings of a registry. -/
structure Options where
  /-- Whether the built-in predicates are installed. -/
  builtins : Bool
  /-- How many aliases may be followed on one path of an evaluation. -/
  maxAliasDepth : Nat
  deriving DecidableEq, Repr

/-- The settings used when none are given. -/
def Options.standard : Options := ⟨true, 64⟩

/-- A test of one value. -/
inductive Test (σ : Type) where
  /-- Accepts the values whose kind is in the set. -/
  | kinds (accepted : Kinds)
  | custom (body : Value → Program Empty σ Bool)

/-- A custom test that is a plain condition. -/
def Test.ofCondition {σ : Type} (holds : Value → Bool) : Test σ :=
  .custom fun v => .done (holds v)

/-- What a name stands for. -/
inductive Binding (σ : Type) where
  | test (test : Test σ)
  /-- The text of the expression that the name stands for. -/
  | alias (source : String)

/-- An error hook: it sees a fault and gives its verdict. -/
abbrev Hook (σ : Type) : Type := Fault → Program Empty σ Verdict

/-- A registry over a user state `σ`. -/
structure Registry (σ : Type) where
  options : Options
  bindings : Table (Binding σ)
  cache : Cache
  hook : Hook σ
  /-- The faults shown to the hook so far, oldest first. -/
  consulted : List Fault
  /-- What the user's programs keep in mind. -/
  state : σ

/-- An operation on a registry. -/
abbrev Run (σ α : Type) : Type := StateT (Registry σ) Option α

/-- An operation on a registry that may end in a fault. -/
abbrev Attempt (σ α : Type) : Type := ExceptT Fault (StateT (Registry σ) Option) α

variable {ι σ α : Type}

/-- The run that exceeds its nesting. -/
def Run.exceeded : Run σ α :=
  fun _ => none

namespace Registry

/-- The hook that raises every fault. -/
def raising : Hook σ :=
  fun _ => .done .raise

/-- Whether a name is bound. -/
def contains (registry : Registry σ) (name : String) : Bool :=
  Table.contains name registry.bindings

/-- How many names are bound. -/
def size (registry : Registry σ) : Nat :=
  registry.bindings.length

/-- How many texts have a compiled tree. -/
def cachedExpressions (registry : Registry σ) : Nat :=
  registry.cache.size

/-- The tree of a text under the registry's names. -/
def compile (source : String) (registry : Registry σ) : Parsed × Registry σ :=
  let (parsed, cache) := registry.cache.compile registry.contains source
  (parsed, { registry with cache := cache })

/-- Bind a name without any check. -/
def install (name : String) (binding : Binding σ) (registry : Registry σ) : Registry σ :=
  { registry with bindings := Table.insert name binding registry.bindings }

end Registry

/-- What a registry answers to the programs of its user. -/
structure Answers (σ : Type) where
  evaluate : String → Value → Run σ (Except Fault Bool)
  bindAlias : Bool → String → String → Run σ (Except Fault Unit)

/-- Answers that allow no question. -/
def Answers.exceeded : Answers σ :=
  ⟨fun _ _ => Run.exceeded, fun _ _ _ => Run.exceeded⟩

/-- Run a program, given the answers to its questions and its calls. -/
def Program.run (answers : Answers σ) (call : ι → Run σ (Except Fault Value)) :
    Program ι σ α → Run σ α
  | .done result => pure result
  | .evaluate source value next => do
      let answer ← answers.evaluate source value
      (next answer).run answers call
  | .bindAlias overriding name source next => do
      let answer ← answers.bindAlias overriding name source
      (next answer).run answers call
  | .readState next => do
      let registry ← get
      (next registry.state).run answers call
  | .writeState state next => do
      modify fun registry => { registry with state := state }
      next.run answers call
  | .call request next => do
      let answer ← call request
      (next answer).run answers call

/-- Run a program that makes no calls. -/
def Program.runClosed (answers : Answers σ) (program : Program Empty σ α) : Run σ α :=
  program.run answers Empty.elim

/-- Note a fault, and ask the hook for its verdict. -/
def consult (answers : Answers σ) (fault : Fault) : Run σ Verdict := do
  modify fun registry => { registry with consulted := registry.consulted ++ [fault] }
  let registry ← get
  (registry.hook fault).runClosed answers

/-- Show a fault to the hook and raise it whatever the verdict. -/
def report (answers : Answers σ) (fault : Fault) : Attempt σ α := do
  let _ ← (consult answers fault : Run σ Verdict)
  throw fault

/-- Show a fault to the hook; go on if it can be recovered from and the hook says so. -/
def recover (answers : Answers σ) (fault : Fault) : Attempt σ Unit := do
  let verdict ← (consult answers fault : Run σ Verdict)
  if verdict = .recover && fault.isRecoverable then return ()
  else throw fault

end Switchboard
