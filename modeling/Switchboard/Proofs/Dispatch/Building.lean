import Switchboard.Dispatcher
import Switchboard.Proofs.Registry.Running

/-!
What goes over to constructions. Building a rule, a list of rules or the routes of a table
compiles texts one after the other, and reports the first descriptor or item that is out of
place. A property of attempts that holds of these parts and goes over to attempts in a row
therefore holds of every construction.
-/

namespace Switchboard

variable {σ S : Type}

/-- A property of attempts that goes over from the parts of a construction to the whole. -/
structure Attempt.Constructive (answers : Answers σ)
    (good : ∀ {α : Type}, Attempt σ α → Prop) : Prop where
  pure : ∀ {α : Type} (result : α), good (pure result : Attempt σ α)
  bind : ∀ {α β : Type} {attempt : Attempt σ α} {next : α → Attempt σ β},
    good attempt → (∀ result, good (next result)) → good (attempt >>= next)
  report : ∀ {α : Type} (fault : Fault), fault.phase = .construction →
    good (report answers fault : Attempt σ α)
  compile : ∀ source, good (liftM (Registry.compileStep source : Run σ Parsed) : Attempt σ Parsed)

namespace Attempt.Constructive

variable {answers : Answers σ} {good : ∀ {α : Type}, Attempt σ α → Prop}
  (h : Constructive answers good)

include h

theorem buildScalar (source : String) (default? : Option Value) :
    good (Rule.buildScalar answers source default?) := by
  rw [Rule.buildScalar]
  split
  · exact h.report _ rfl
  · exact h.bind (h.compile source) fun _ => h.pure _

mutual

theorem build (descriptor : Descriptor) : good (Rule.build answers descriptor) := by
  match descriptor with
  | .type source => exact h.buildScalar source none
  | .shape fields => exact h.bind (buildFields fields) fun _ => h.pure _
  | .defaulted (.type source) default => exact h.buildScalar source (some default)
  | .defaulted (.shape fields) default => exact h.bind (buildFields fields) fun _ => h.pure _
  | .defaulted (.defaulted inner first) second => exact h.report _ rfl

theorem buildFields (fields : List (String × Descriptor)) :
    good (Rule.buildFields answers fields) := by
  match fields with
  | [] => exact h.pure []
  | (_, field) :: rest =>
      exact h.bind (build field) fun _ => h.bind (buildFields rest) fun _ => h.pure _

end

theorem buildAll (descriptors : List Descriptor) : good (Rule.buildAll answers descriptors) := by
  induction descriptors with
  | nil => exact h.pure []
  | cons descriptor rest ih =>
      exact h.bind (h.build descriptor) fun _ => h.bind ih fun _ => h.pure _

theorem buildRoutes (position : Nat) (items : List (Item σ S)) :
    good (Dispatcher.buildRoutes answers position items) := by
  match items with
  | [] => exact h.pure []
  | .behavior _ :: _ => exact h.report _ rfl
  | [.rules descriptors] => exact h.bind (h.buildAll descriptors) fun _ => h.report _ rfl
  | .rules descriptors :: .rules _ :: _ =>
      exact h.bind (h.buildAll descriptors) fun _ => h.report _ rfl
  | .rules descriptors :: .behavior _ :: rest =>
      exact h.bind (h.buildAll descriptors) fun _ =>
        h.bind (buildRoutes (position + 2) rest) fun _ => h.pure _

theorem extend (table : Dispatcher σ S) (items : List (Item σ S)) :
    good (table.extend answers items) :=
  h.bind (h.buildRoutes 0 items) fun _ => h.pure _

end Attempt.Constructive

end Switchboard
