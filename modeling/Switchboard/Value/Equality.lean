import Switchboard.Value.Basic

/-!
Equality of values. Numbers compare as numbers, so NaN differs from itself and the
zeros agree; regular expressions compare by text, functions by body; objects agree
if they have equally many fields and each field of one has an equal in the other.
-/

namespace Switchboard.Value

mutual

/-- Whether two values are equal. -/
def equal : Value → Value → Bool
  | undefined, undefined => true
  | null, null => true
  | boolean a, boolean b => a == b
  | number a, number b => a.equal b
  | string a, string b => a == b
  | regexp a, regexp b => a == b
  | array a, array b => equalItems a b
  | object a, object b => a.length == b.length && equalFields a b
  | function f, function g => f.body == g.body
  | _, _ => false

/-- Equal item by item, and of one length. -/
def equalItems : List Value → List Value → Bool
  | [], [] => true
  | a :: as, b :: bs => equal a b && equalItems as bs
  | _, _ => false

/-- Whether each of the fields has an equal one under its key in a table. -/
def equalFields : List (String × Value) → List (String × Value) → Bool
  | [], _ => true
  | (key, entry) :: rest, table =>
      (match Table.get? key table with
        | some other => equal entry other
        | none => false) && equalFields rest table

end

end Switchboard.Value
