import Switchboard.Kind
import Switchboard.Number.Basic
import Switchboard.Table

/-!
Values: what type expressions are tested on and what calls pass around. Besides
the usual data there is an absent value, `undefined`, next to `null`. An object
keeps its fields in the order in which their keys were first written. A function
is known by its name and by the number of its body; what a body does is the
business of the program that holds it.
-/

namespace Switchboard

/-- A callable: its name, and which body it runs. -/
structure Function where
  name : String
  body : Nat
  deriving DecidableEq, Repr

/-- A dynamic value. -/
inductive Value where
  | undefined
  | null
  | boolean (b : Bool)
  | number (n : Number)
  | string (s : String)
  /-- A regular expression, of which only the text matters. -/
  | regexp (pattern : String)
  | array (items : List Value)
  | object (fields : List (String × Value))
  | function (f : Function)
  deriving Inhabited

namespace Value

def kind : Value → Kind
  | undefined => .undefined
  | null => .null
  | boolean _ => .boolean
  | number _ => .number
  | string _ => .string
  | regexp _ => .regexp
  | array _ => .array
  | object _ => .object
  | function _ => .function

/-- The name of the atomic predicate that accepts the value. -/
def typeName (v : Value) : String :=
  v.kind.name

def isUndefined : Value → Bool
  | undefined => true
  | _ => false

/-- True of `undefined` and `null`. -/
def isUnset : Value → Bool
  | undefined => true
  | null => true
  | _ => false

def asString? : Value → Option String
  | string s => some s
  | _ => none

def asNumber? : Value → Option Number
  | number n => some n
  | _ => none

def asArray? : Value → Option (List Value)
  | array items => some items
  | _ => none

def asObject? : Value → Option (Table Value)
  | object fields => some fields
  | _ => none

def asFunction? : Value → Option Function
  | function f => some f
  | _ => none

/-- The field of an object under a key; no other value has fields. -/
def field? (v : Value) (key : String) : Option Value :=
  v.asObject?.bind (Table.get? key)

/-- Write a field of an object; nothing for other values. -/
def setField? (v : Value) (key : String) (entry : Value) : Option Value :=
  v.asObject?.map fun fields => object (Table.insert key entry fields)

/-- An object with the given fields: a repeated key keeps its first place and its
last entry. -/
def ofFields (fields : List (String × Value)) : Value :=
  object (Table.ofEntries fields)

/-- An optional value: the empty option is `undefined`, not `null`. -/
def ofOption (v : Option Value) : Value :=
  v.getD undefined

/-- Induction along the items of arrays and the entries of objects. -/
@[elab_as_elim]
theorem induction {motive : Value → Prop}
    (leaf : ∀ v : Value, v.kind ≠ .array → v.kind ≠ .object → motive v)
    (array : ∀ items, (∀ item ∈ items, motive item) → motive (array items))
    (object : ∀ fields : Table Value, (∀ field ∈ fields, motive field.2) → motive (object fields)) :
    ∀ v, motive v
  | .array items => array items fun item hitem =>
      have hlt : sizeOf item < sizeOf (Value.array items) :=
        Nat.lt_trans (List.sizeOf_lt_of_mem hitem) (by simp)
      induction leaf array object item
  | .object fields => object fields fun field hfield =>
      have hlt : sizeOf field.2 < sizeOf (Value.object fields) :=
        Nat.lt_trans (Table.sizeOf_entry_lt hfield) (by simp)
      induction leaf array object field.2
  | .undefined | .null | .boolean _ | .number _ | .string _ | .regexp _ | .function _ =>
      leaf _ nofun nofun
  termination_by v => sizeOf v
  decreasing_by all_goals exact hlt

mutual

/-- No object in the value, at any depth, repeats a key. -/
def Distinct : Value → Prop
  | array items => DistinctItems items
  | object fields => Table.Distinct fields ∧ DistinctFields fields
  | _ => True

/-- Every value of a list is `Distinct`. -/
def DistinctItems : List Value → Prop
  | [] => True
  | item :: rest => item.Distinct ∧ DistinctItems rest

/-- Every entry of a list of fields is `Distinct`. -/
def DistinctFields : List (String × Value) → Prop
  | [] => True
  | (_, entry) :: rest => entry.Distinct ∧ DistinctFields rest

end

end Value

end Switchboard
