import Switchboard.Fault
import Switchboard.Value.Basic

/-!
Programs of the user: the bodies of custom tests, of error hooks and of behaviors.
A program may ask the registry to evaluate an expression or to bind an alias, read
and write the user's own state, and make calls of the kind `ι`; each next step may
depend on the answer. Tests and hooks make no calls: their `ι` is empty. A program
that is `done` at once is pure.
-/

namespace Switchboard

/-- A program over a user state `σ` that makes calls of kind `ι` and ends with an
`α`. -/
inductive Program (ι σ α : Type) : Type where
  | done (result : α)
  /-- Evaluate an expression text on a value. -/
  | evaluate (source : String) (value : Value) (next : Except Fault Bool → Program ι σ α)
  /-- Bind a name to an alias, over an earlier binding only if `overriding`. -/
  | bindAlias (overriding : Bool) (name source : String)
      (next : Except Fault Unit → Program ι σ α)
  /-- Read the user's state. -/
  | readState (next : σ → Program ι σ α)
  /-- Write the user's state. -/
  | writeState (state : σ) (next : Program ι σ α)
  /-- Make a call. -/
  | call (request : ι) (next : Except Fault Value → Program ι σ α)

namespace Program

variable {ι σ α β : Type}

/-- Run a second program on the result of a first one. -/
def andThen (first : Program ι σ α) (second : α → Program ι σ β) : Program ι σ β :=
  match first with
  | done result => second result
  | evaluate source value next => evaluate source value fun answer => (next answer).andThen second
  | bindAlias overriding name source next =>
      bindAlias overriding name source fun answer => (next answer).andThen second
  | readState next => readState fun state => (next state).andThen second
  | writeState state next => writeState state (next.andThen second)
  | call request next => call request fun answer => (next answer).andThen second

instance : Monad (Program ι σ) where
  pure := done
  bind := andThen

end Program

end Switchboard
