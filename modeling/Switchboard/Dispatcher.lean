import Switchboard.Registry.Access
import Switchboard.Route

/-!
Dispatchers: ordered tables of routes. A call runs the behavior of the first route
that matches the arguments as the caller gave them. A running behavior may hand
arguments over to the first behavior or to the one before it, which tests no rule,
or dispatch anew, always under the scope of the call. A table grows by whole
sequences of rules and behaviors in turn, or not at all.
-/

namespace Switchboard

/-- An ordered table of routes. -/
structure Dispatcher (σ S : Type) where
  routes : List (Route σ S)

/-- An item of the sequence that a dispatcher is built from. -/
inductive Item (σ S : Type) where
  | rules (descriptors : List Descriptor)
  | behavior (body : Behavior σ S)

namespace Dispatcher

variable {σ S : Type}

def empty : Dispatcher σ S := ⟨[]⟩

/-- One line per route. -/
def display (table : Dispatcher σ S) : String :=
  String.join (table.routes.zipIdx.map fun (route, ordinal) =>
    "#" ++ toString ordinal ++ " " ++ route.display ++ "\n")

/-- The routes of an item sequence that starts at a position. -/
def buildRoutes (answers : Answers σ) : Nat → List (Item σ S) → Attempt σ (List (Route σ S))
  | _, [] => return []
  | position, .behavior _ :: _ =>
      report answers (.invalidRoute position .behaviorBeforeRules)
  | position, .rules descriptors :: rest => do
      let rules ← Rule.buildAll answers descriptors
      match rest with
      | [] => report answers (.invalidRoute position .missingBehavior)
      | .rules _ :: _ => report answers (.invalidRoute (position + 1) .rulesBeforeBehavior)
      | .behavior body :: rest =>
          let routes ← buildRoutes answers (position + 2) rest
          return ⟨rules, body⟩ :: routes

/-- The table with the routes of a sequence after its own. -/
def extend (answers : Answers σ) (table : Dispatcher σ S) (items : List (Item σ S)) :
    Attempt σ (Dispatcher σ S) := do
  let routes ← buildRoutes answers 0 items
  return ⟨table.routes ++ routes⟩

/-- The table of a sequence. -/
def ofItems (answers : Answers σ) (items : List (Item σ S)) : Attempt σ (Dispatcher σ S) :=
  empty.extend answers items

/-- The sequence of a list of routes. -/
def itemsOfRoutes (routes : List (List Descriptor × Behavior σ S)) : List (Item σ S) :=
  routes.flatMap fun (descriptors, body) => [.rules descriptors, .behavior body]

/-- The first route from an ordinal on that matches, with its ordinal and the
arguments as it settles them. -/
def select (answers : Answers σ) (arguments : List Value) :
    Nat → List (Route σ S) → Attempt σ (Option (Nat × Route σ S × List Value))
  | _, [] => return none
  | ordinal, route :: rest => do
      match ← route.test answers arguments with
      | some settled => return some (ordinal, route, settled)
      | none => select answers arguments (ordinal + 1) rest

/-- How a running behavior's requests are met, given its ordinal. -/
abbrev Handover (σ : Type) : Type := Nat → Request → Run σ (Except Fault Value)

/-- Start the behavior of a route. -/
def start (answers : Answers σ) (handover : Handover σ) (scope : S) (ordinal : Nat)
    (route : Route σ S) (arguments : List Value) : Attempt σ Value :=
  ExceptT.mk ((route.behavior ⟨scope, ordinal, arguments⟩).run answers (handover ordinal))

/-- Run the first route that matches; with none, a fault, or `undefined` if the hook
recovers. -/
def dispatchWith (answers : Answers σ) (handover : Handover σ) (table : Dispatcher σ S)
    (scope : S) (arguments : List Value) : Attempt σ Value := do
  match ← select answers arguments 0 table.routes with
  | some (ordinal, route, settled) => start answers handover scope ordinal route settled
  | none =>
      recover answers (.noMatchingRoute (Value.displayAll arguments) table.routes.length)
      return .undefined

/-- Run the behavior at an ordinal without testing its rules. -/
def invokeWith (answers : Answers σ) (handover : Handover σ) (table : Dispatcher σ S)
    (ordinal : Nat) (scope : S) (arguments : List Value) : Attempt σ Value :=
  match table.routes[ordinal]? with
  | some route => start answers handover scope ordinal route arguments
  | none => report answers (.noPreviousRoute ordinal)

/-- Meet a request, given how the requests of the behavior it starts are met. -/
def meet (answers : Answers σ) (handover : Handover σ) (table : Dispatcher σ S) (scope : S)
    (ordinal : Nat) : Request → Attempt σ Value
  | .first arguments => table.invokeWith answers handover 0 scope arguments
  | .previous arguments =>
      match ordinal with
      | 0 => report answers (.noPreviousRoute 0)
      | before + 1 => table.invokeWith answers handover before scope arguments
  | .dispatch arguments => table.dispatchWith answers handover scope arguments

/-- How requests are met by behaviors that nest at most so deep. -/
def handoverUpTo (answers : Answers σ) (table : Dispatcher σ S) (scope : S) : Nat → Handover σ
  | 0 => fun _ _ => Run.exceeded
  | nesting + 1 => fun ordinal request =>
      (table.meet answers (table.handoverUpTo answers scope nesting) scope ordinal request).run

/-- Dispatch a call, with a bound on how deep programs nest. -/
def dispatch (nesting : Nat) (table : Dispatcher σ S) (scope : S) (arguments : List Value) :
    Attempt σ Value :=
  let answers := Answers.upTo nesting
  table.dispatchWith answers (table.handoverUpTo answers scope nesting) scope arguments

/-- Run the behavior at an ordinal, with a bound on how deep programs nest. -/
def invoke (nesting : Nat) (table : Dispatcher σ S) (ordinal : Nat) (scope : S)
    (arguments : List Value) : Attempt σ Value :=
  let answers := Answers.upTo nesting
  table.invokeWith answers (table.handoverUpTo answers scope nesting) ordinal scope arguments

end Dispatcher

end Switchboard
