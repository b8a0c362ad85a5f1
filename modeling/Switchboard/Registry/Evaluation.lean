import Switchboard.Registry.Basic

/-!
Evaluation of type expressions. Operators short-circuit from left to right; a name
is looked up when it is reached. A test decides by itself; an alias is compiled and
followed, unless the allowed number of hops is used up. An unknown name and an alias
beyond the allowance are faults, and count as false if the hook recovers.
-/

namespace Switchboard

variable {σ : Type}

/-- The answer of a test on a value. -/
def Test.check (answers : Answers σ) : Test σ → Value → Run σ Bool
  | .kinds accepted, v => pure (accepted.contains v.kind)
  | .custom body, v => (body v).runClosed answers

/-- Whether all values of a list pass, up to the first that does not. -/
def allPass (passes : Value → Attempt σ Bool) : List Value → Attempt σ Bool
  | [] => return true
  | v :: rest => do
      if ← passes v then allPass passes rest else return false

/-- Evaluate a tree on a value, given what a name answers on a value. -/
def Expr.evaluateWith (resolve : String → Value → Attempt σ Bool) : Expr → Value → Attempt σ Bool
  | .named name, v => resolve name v
  | .or left right, v => do
      if ← left.evaluateWith resolve v then return true else right.evaluateWith resolve v
  | .and left right, v => do
      if ← left.evaluateWith resolve v then right.evaluateWith resolve v else return false
  | .not inner, v => do
      return !(← inner.evaluateWith resolve v)
  | .arrayOf inner, v =>
      match v with
      | .array items => allPass (inner.evaluateWith resolve) items
      | _ => return false

namespace Registry

/-- Raise a fault, or count as false if the hook recovers. -/
def orFalse (answers : Answers σ) (fault : Fault) : Attempt σ Bool := do
  recover answers fault
  return false

/-- What a name answers on a value, given how an alias is followed from its name and
its text. -/
def resolve (answers : Answers σ) (follow : String → String → Value → Attempt σ Bool)
    (name : String) (v : Value) : Attempt σ Bool := do
  let registry ← get
  match Table.get? name registry.bindings with
  | none => orFalse answers (.unknownType name)
  | some (.test test) => (test.check answers v : Run σ Bool)
  | some (.alias source) => follow name source v

/-- Compile a text as a step of an operation. -/
def compileStep (source : String) : Run σ Parsed :=
  fun registry => some (registry.compile source)

/-- Evaluate a tree on a value with a number of alias hops left. -/
def evaluateFrom (answers : Answers σ) : Nat → Expr → Value → Attempt σ Bool
  | 0 => Expr.evaluateWith (resolve answers fun name _ _ => orFalse answers (.cyclicType name))
  | hops + 1 => Expr.evaluateWith (resolve answers fun _ source v => do
      let parsed ← (compileStep source : Run σ Parsed)
      evaluateFrom answers hops parsed.tree v)

/-- Evaluate a tree on a value. -/
def evaluateTree (answers : Answers σ) (tree : Expr) (v : Value) : Attempt σ Bool := do
  let registry ← get
  evaluateFrom answers registry.options.maxAliasDepth tree v

/-- Evaluate an expression text on a value. -/
def evaluate (answers : Answers σ) (source : String) (v : Value) : Attempt σ Bool := do
  let parsed ← (compileStep source : Run σ Parsed)
  evaluateTree answers parsed.tree v

end Registry

end Switchboard
