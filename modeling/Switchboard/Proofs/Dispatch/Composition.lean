import Switchboard.Dispatcher
import Switchboard.Proofs.Registry.Composition

/-!
What goes over from evaluations to tests. Matching an argument, testing a route and selecting
one are evaluations in a row. A property of attempts that goes over from the parts of an
evaluation to the whole therefore holds of all tests.
-/

namespace Switchboard

variable {σ S : Type}

namespace Attempt.Compositional

variable {answers : Answers σ} {good : ∀ {α : Type}, Attempt σ α → Prop}
  (h : Compositional answers good)

include h

mutual

theorem test (rule : Rule) (v : Value) : good (rule.test answers v) := by
  cases rule with
  | scalar source tree default? => exact h.bind (h.evaluateTree tree v) fun _ => h.pure _
  | shape fields default? =>
      rw [Rule.test]
      split
      · exact h.pure none
      · next object _ => exact h.bind (testFields fields object) fun _ => h.pure _

theorem testFields (fields : List (String × Rule)) (object : Table Value) :
    good (Rule.testFields answers fields object) := by
  cases fields with
  | nil => exact h.pure (some [])
  | cons field rest =>
      obtain ⟨key, rule⟩ := field
      refine h.bind (test rule _) fun found => ?_
      cases found with
      | none => exact h.pure none
      | some found => exact h.bind (testFields rest object) fun _ => h.pure _

end

theorem testAll (rules : List Rule) (arguments : List Value) :
    good (Rule.testAll answers rules arguments) := by
  induction rules generalizing arguments with
  | nil => exact h.pure (some [])
  | cons rule rules ih =>
      refine h.bind (h.test rule _) fun found => ?_
      cases found with
      | none => exact h.pure none
      | some found => exact h.bind (ih arguments.tail) fun _ => h.pure _

theorem routeTest (route : Route σ S) (arguments : List Value) :
    good (route.test answers arguments) := by
  rw [Route.test]
  split
  · exact h.pure none
  · exact h.bind (h.testAll route.rules arguments) fun _ => h.pure _

theorem select (arguments : List Value) (ordinal : Nat) (routes : List (Route σ S)) :
    good (Dispatcher.select answers arguments ordinal routes) := by
  induction routes generalizing ordinal with
  | nil => exact h.pure none
  | cons route rest ih =>
      refine h.bind (h.routeTest route arguments) fun settled => ?_
      cases settled with
      | none => exact ih (ordinal + 1)
      | some settled => exact h.pure _

end Attempt.Compositional

end Switchboard
