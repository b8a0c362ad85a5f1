import Switchboard.Proofs.Route.InPlace

/-!
Dispatch in place. A dispatch hands one list of arguments from route to route, each of which
may write to it. As only a route that matches does, every route sees the arguments of the
caller, and so does the fault that reports them; the behavior that is started sees them as its
own route has settled them.
-/

namespace Switchboard.Dispatcher

variable {σ S : Type}

/-- The first route from an ordinal on that matches the arguments, which it settles. -/
def selectInPlace (answers : Answers σ) :
    Nat → List (Route σ S) → Rewriting σ (Option (Nat × Route σ S))
  | _, [] => return none
  | ordinal, route :: rest => do
      if ← route.testInPlace answers then return some (ordinal, route)
      else selectInPlace answers (ordinal + 1) rest

/-- Run the first route that matches on the arguments as they are then. -/
def dispatchInPlace (answers : Answers σ) (handover : Handover σ) (table : Dispatcher σ S)
    (scope : S) : Rewriting σ Value := do
  let selected ← selectInPlace answers 0 table.routes
  let arguments : List Value ← get
  match selected with
  | some (ordinal, route) =>
      Rewriting.ofAttempt (start answers handover scope ordinal route arguments)
  | none => do
      Rewriting.ofAttempt (recover answers
        (.noMatchingRoute (Value.displayAll arguments) table.routes.length))
      return .undefined

/-- Selecting a route in place selects the same route, and leaves the arguments as that route
settles them, or as they were. -/
theorem selectInPlace_run (answers : Answers σ) (ordinal : Nat) (routes : List (Route σ S))
    (arguments : List Value) (registry : Registry σ) :
    (selectInPlace answers ordinal routes).run arguments registry =
      ((select answers arguments ordinal routes).run registry).map fun (outcome, after) =>
        ((outcome.map (Option.map fun found => (found.1, found.2.1)),
          Route.argumentsAfter arguments (outcome.map (Option.map fun found => found.2.2))),
          after) := by
  induction routes generalizing ordinal registry with
  | nil => rfl
  | cons route rest ih =>
      change ((route.testInPlace answers).run arguments registry).bind _ =
        (((route.test answers arguments).run registry).bind _).map _
      rw [Route.testInPlace_run]
      rcases (route.test answers arguments).run registry with _ | ⟨_ | _ | settled, after⟩
      · rfl
      · rfl
      · exact ih (ordinal + 1) after
      · rfl

/-- A dispatch in place has the outcome of a dispatch of the caller's arguments. -/
theorem dispatchInPlace_run (answers : Answers σ) (handover : Handover σ)
    (table : Dispatcher σ S) (scope : S) (arguments : List Value) (registry : Registry σ) :
    ((table.dispatchInPlace answers handover scope).run arguments registry).map
        (fun ((outcome, _), after) => (outcome, after)) =
      (table.dispatchWith answers handover scope arguments).run registry := by
  change (((selectInPlace answers 0 table.routes).run arguments registry).bind _).map _ =
    ((select answers arguments 0 table.routes).run registry).bind _
  rw [selectInPlace_run]
  rcases (select answers arguments 0 table.routes).run registry with
    _ | ⟨_ | _ | ⟨ordinal, route, settled⟩, after⟩
  · rfl
  · rfl
  · let report := recover answers
      (.noMatchingRoute (Value.displayAll arguments) table.routes.length)
    change ((Rewriting.ofAttempt report >>= fun _ => pure Value.undefined).run arguments after).map _ =
      (report.run after).bind _
    rw [Rewriting.run_ofAttempt_bind]
    rcases report.run after with _ | ⟨_ | _, _⟩ <;> rfl
  · change (((start answers handover scope ordinal route settled).run after).map _).map _ =
      (start answers handover scope ordinal route settled).run after
    rw [Option.map_map]
    exact Option.map_id'

end Switchboard.Dispatcher
