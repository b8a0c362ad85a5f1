import Switchboard.Rule.Basic

/-!
Matching one argument. A scalar rule matches a value that its expression accepts,
but never `undefined` as a value: an absent argument is matched by the default, if
the expression refuses `undefined` and the default is not `undefined` itself. A
shape rule matches an object whose declared fields all match, or its default in
place of an unset argument; the match holds the declared fields alone.
-/

namespace Switchboard

/-- What a rule found. -/
inductive Match where
  | value (v : Value)
  /-- The declared fields in order, with what their rules found. -/
  | shape (fields : List (String × Value))
  deriving Inhabited

/-- The found value. -/
def Match.toValue : Match → Value
  | value v => v
  | shape fields => .object fields

/-- The slot after a match: a shape is written over the fields of an object that is
there; anything else is replaced. -/
def Match.settle (slot : Value) : Match → Value
  | value v => v
  | shape fields =>
      match slot with
      | .object existing => .object (Table.insertAll fields existing)
      | _ => .object fields

namespace Rule

variable {σ : Type}

/-- What a scalar rule finds, given whether its expression accepts the value. -/
def scalarMatch (accepted : Bool) (default? : Option Value) (v : Value) : Option Match :=
  if accepted then
    if v.isUndefined then none else some (.value v)
  else if v.isUndefined then
    (default?.filter fun default => !default.isUndefined).map Match.value
  else none

/-- The value that a shape rule looks into: its default in place of an unset one. -/
def workingValue (default? : Option Value) (v : Value) : Value :=
  if v.isUnset then default?.getD v else v

mutual

/-- Match one argument. -/
def test (answers : Answers σ) : Rule → Value → Attempt σ (Option Match)
  | scalar _ tree default?, v => do
      let accepted ← Registry.evaluateTree answers tree v
      return scalarMatch accepted default? v
  | shape fields default?, v =>
      match (workingValue default? v).asObject? with
      | none => return none
      | some object => do
          let found ← testFields answers fields object
          return found.map Match.shape

/-- Match the declared fields in order, up to the first that does not match. -/
def testFields (answers : Answers σ) :
    List (String × Rule) → Table Value → Attempt σ (Option (List (String × Value)))
  | [], _ => return some []
  | (key, rule) :: rest, object => do
      match ← test answers rule ((Table.get? key object).getD .undefined) with
      | none => return none
      | some found =>
          let others ← testFields answers rest object
          return others.map fun fields => (key, found.toValue) :: fields

end

end Rule

end Switchboard
