import Switchboard.Rule.Match

/-!
Routes: a rule per argument position, and the behavior they guard. A route matches
an argument list that is not longer than its rules and whose arguments all match,
`undefined` standing for a missing one; the match settles the list on one argument
per rule. The test has no other effect on the arguments.
-/

namespace Switchboard

/-- What a running behavior may ask of the dispatcher it runs in. -/
inductive Request where
  /-- Run the first behavior. -/
  | first (arguments : List Value)
  /-- Run the behavior before the running one. -/
  | previous (arguments : List Value)
  /-- Dispatch anew. -/
  | dispatch (arguments : List Value)

/-- A call as a behavior sees it. -/
structure Call (S : Type) where
  /-- What the caller passed along. -/
  scope : S
  /-- The position of the running route. -/
  ordinal : Nat
  /-- The arguments as the match has settled them. -/
  arguments : List Value

/-- The body of a route. -/
abbrev Behavior (σ S : Type) : Type := Call S → Program Request σ (Except Fault Value)

/-- Rules for the arguments, and what to run when they match. -/
structure Route (σ S : Type) where
  rules : List Rule
  behavior : Behavior σ S

/-- The text of a list of rules. -/
def Rule.displayAll (rules : List Rule) : String :=
  "(" ++ String.intercalate ", " (rules.map Rule.display) ++ ")"

variable {σ S : Type}

/-- Match arguments against rules from left to right, up to the first that does not
match. -/
def Rule.testAll (answers : Answers σ) : List Rule → List Value → Attempt σ (Option (List Match))
  | [], _ => return some []
  | rule :: rules, arguments => do
      match ← rule.test answers (arguments.headD .undefined) with
      | none => return none
      | some found =>
          let others ← Rule.testAll answers rules arguments.tail
          return others.map fun rest => found :: rest

/-- The argument list after a match, one argument per rule. -/
def Match.settleAll : List Match → List Value → List Value
  | [], _ => []
  | found :: rest, arguments =>
      found.settle (arguments.headD .undefined) :: settleAll rest arguments.tail

namespace Route

def display (route : Route σ S) : String :=
  Rule.displayAll route.rules

/-- The argument list that a match settles on, if the route matches. -/
def test (answers : Answers σ) (route : Route σ S) (arguments : List Value) :
    Attempt σ (Option (List Value)) := do
  if route.rules.length < arguments.length then return none
  else
    let found ← Rule.testAll answers route.rules arguments
    return found.map fun all => Match.settleAll all arguments

end Route

end Switchboard
