import Switchboard.Registry.Definition
import Switchboard.Registry.Evaluation

/-!
Answers to the user's programs. A program asks its registry questions whose answers
may run further programs; the answers are therefore given with a nesting, the number
of programs that may still run inside each other. Programs that ask nothing never
use it up.
-/

namespace Switchboard

variable {σ : Type}

/-- The answers of a registry to programs that nest at most so deep. -/
def Answers.upTo : Nat → Answers σ
  | 0 => .exceeded
  | nesting + 1 =>
      { evaluate := fun source v => (Registry.evaluate (upTo nesting) source v).run
        bindAlias := fun overriding name source =>
          (Registry.bind (upTo nesting) overriding name (.alias source)).run }

end Switchboard
