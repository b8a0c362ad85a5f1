/-!
Faults: the causes of failure of definitions, constructions and calls. Each fault
has a phase, a wording, and an answer to the question whether a hook may turn it
into a fallback.
-/

namespace Switchboard

/-- When a fault can arise. -/
inductive Phase where
  /-- While a name is bound. -/
  | definition
  /-- While a rule or a dispatcher is built or extended. -/
  | construction
  /-- While an expression is evaluated or a call is dispatched. -/
  | call
  deriving DecidableEq, Repr

/-- Why a definition cannot be bound. -/
inductive Objection where
  | emptyName
  | emptyAlias
  | refersToItself (source : String)
  | undefinedReference (name : String)
  /-- An objection of the caller, in its own words. -/
  | stated (reason : String)
  deriving DecidableEq, Repr

/-- Why an item of a route sequence cannot stand where it does. -/
inductive Misplacement where
  | rulesBeforeBehavior
  | behaviorBeforeRules
  | missingBehavior
  /-- A reason given by the caller, in its own words. -/
  | stated (reason : String)
  deriving DecidableEq, Repr

/-- The cause of a failure. -/
inductive Fault where
  | unknownType (name : String)
  | duplicateType (name : String)
  | invalidDefinition (name : String) (objection : Objection)
  | cyclicType (name : String)
  | invalidRule (descriptor : String)
  | invalidRoute (position : Nat) (misplacement : Misplacement)
  | noMatchingRoute (arguments : String) (routes : Nat)
  | noPreviousRoute (ordinal : Nat)
  /-- A failure raised by a behavior, in its own words. -/
  | behavior (message : String)
  deriving DecidableEq, Repr

/-- What a hook answers to a fault. -/
inductive Verdict where
  | raise
  | recover
  deriving DecidableEq, Repr

/-- The wording of an objection. -/
def Objection.reason : Objection → String
  | emptyName => "empty name"
  | emptyAlias => "empty alias"
  | refersToItself source => "alias \"" ++ source ++ "\" refers to itself"
  | undefinedReference name => "\"" ++ name ++ "\" is not a defined type"
  | stated reason => reason

/-- The wording of a misplacement. -/
def Misplacement.reason : Misplacement → String
  | rulesBeforeBehavior => "expected a behavior, found a rule list"
  | behaviorBeforeRules => "expected a rule list, found a behavior"
  | missingBehavior => "rule list has no behavior"
  | stated reason => reason

namespace Fault

def unknownTypeMessage (name : String) : String :=
  "No type named \"" ++ name ++ "\" has been defined."

def duplicateTypeMessage (name : String) : String :=
  "A type called \"" ++ name ++ "\" already exists."

def invalidDefinitionMessage (name reason : String) : String :=
  "Type definition for \"" ++ name ++ "\" requires a test function or a resolvable alias (" ++
    reason ++ ")."

def cyclicTypeMessage (name : String) : String :=
  "Type \"" ++ name ++ "\" is defined in terms of itself."

def invalidRuleMessage (descriptor : String) : String :=
  "Improper rule descriptor: " ++ descriptor

def invalidRouteMessage (position : Nat) (reason : String) : String :=
  "Improper route descriptor at position " ++ toString position ++ ": " ++ reason

def noMatchingRouteMessage (arguments : String) (routes : Nat) : String :=
  "Arguments (" ++ arguments ++ ") do not conform to any of " ++ toString routes ++
    " overload(s)."

def noPreviousRouteMessage (ordinal : Nat) : String :=
  "Overload " ++ toString ordinal ++ " has no previously registered behavior."

/-- The wording of a fault. -/
def message : Fault → String
  | unknownType name => unknownTypeMessage name
  | duplicateType name => duplicateTypeMessage name
  | invalidDefinition name objection => invalidDefinitionMessage name objection.reason
  | cyclicType name => cyclicTypeMessage name
  | invalidRule descriptor => invalidRuleMessage descriptor
  | invalidRoute position misplacement => invalidRouteMessage position misplacement.reason
  | noMatchingRoute arguments routes => noMatchingRouteMessage arguments routes
  | noPreviousRoute ordinal => noPreviousRouteMessage ordinal
  | behavior message => message

/-- The phase a fault belongs to. -/
def phase : Fault → Phase
  | duplicateType _ | invalidDefinition .. => .definition
  | invalidRule _ | invalidRoute .. => .construction
  | unknownType _ | cyclicType _ | noMatchingRoute .. | noPreviousRoute _ | behavior _ => .call

/-- Whether a hook may turn the fault into a fallback. -/
def isRecoverable : Fault → Bool
  | unknownType _ | cyclicType _ | noMatchingRoute .. | duplicateType _
  | invalidDefinition .. => true
  | invalidRule _ | invalidRoute .. | noPreviousRoute _ | behavior _ => false

end Fault

end Switchboard
