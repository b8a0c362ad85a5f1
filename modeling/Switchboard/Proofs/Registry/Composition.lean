import Switchboard.Proofs.Registry.Running

/-!
What goes over from the parts of an evaluation to the whole. An evaluation is made of few
parts: attempts in a row, the look-up of a name, and the compilation of a text. A property of
attempts that goes over from the parts to what they make up therefore holds of all
evaluations.
-/

namespace Switchboard

variable {σ : Type}

/-- A property of attempts that goes over from the parts of an evaluation to the whole. -/
structure Attempt.Compositional (answers : Answers σ)
    (good : ∀ {α : Type}, Attempt σ α → Prop) : Prop where
  pure : ∀ {α : Type} (result : α), good (pure result : Attempt σ α)
  bind : ∀ {α β : Type} {attempt : Attempt σ α} {next : α → Attempt σ β},
    good attempt → (∀ result, good (next result)) → good (attempt >>= next)
  /-- A name is good if an alias is, however it is followed. -/
  resolve : ∀ {follow : String → String → Value → Attempt σ Bool},
    (∀ name source v, good (follow name source v)) →
      ∀ name v, good (Registry.resolve answers follow name v)
  cyclic : ∀ name, good (Registry.orFalse answers (.cyclicType name))
  /-- What is done with the tree of a text is good if it is for every tree. -/
  compile : ∀ {α : Type} {next : Expr → Attempt σ α}, (∀ tree, good (next tree)) →
    ∀ source, good (do
      let parsed ← (Registry.compileStep source : Run σ Parsed)
      next parsed.tree)
  /-- What is done within the allowed number of hops is good if it is for every number. -/
  settings : ∀ {α : Type} {next : Nat → Attempt σ α}, (∀ hops, good (next hops)) → good (do
    let registry ← get
    next registry.options.maxAliasDepth)

namespace Attempt.Compositional

variable {answers : Answers σ} {good : ∀ {α : Type}, Attempt σ α → Prop}
  (h : Compositional answers good)

include h

theorem evaluateFrom (hops : Nat) (tree : Expr) (v : Value) :
    good (Registry.evaluateFrom answers hops tree v) := by
  induction hops generalizing tree v with
  | zero =>
      refine Expr.evaluateWith_induction h.pure (fun _ _ => h.bind) (fun name _ v => ?_) v
      exact h.resolve (fun name _ _ => h.cyclic name) name v
  | succ hops ih =>
      refine Expr.evaluateWith_induction h.pure (fun _ _ => h.bind) (fun name _ v => ?_) v
      exact h.resolve (fun _ source v => h.compile (fun tree => ih tree v) source) name v

theorem evaluateTree (tree : Expr) (v : Value) :
    good (Registry.evaluateTree answers tree v) :=
  h.settings fun hops => h.evaluateFrom hops tree v

theorem evaluate (source : String) (v : Value) : good (Registry.evaluate answers source v) :=
  h.compile (fun tree => h.evaluateTree tree v) source

end Attempt.Compositional

end Switchboard
