import Switchboard.Fault
import Switchboard.Value.Display

/-!
Descriptors: what a rule is to accept, before it is built. A descriptor is a type
text, a shape with a descriptor per field, or either of them with a default. Values
describe rules too: a string, an object of descriptions, or a pair of a string or
object and a default.
-/

namespace Switchboard

/-- The description of a rule. -/
inductive Descriptor where
  | type (source : String)
  | shape (fields : List (String × Descriptor))
  | defaulted (inner : Descriptor) (default : Value)
  deriving Inhabited

namespace Descriptor

mutual

/-- The text of a descriptor. -/
def display : Descriptor → String
  | type source => Text.quoted source
  | shape fields => "\x7b" ++ String.intercalate ", " (displayFields fields) ++ "\x7d"
  | defaulted inner default => "[" ++ inner.display ++ ", " ++ default.display ++ "]"

def displayFields : List (String × Descriptor) → List String
  | [] => []
  | (key, field) :: rest => (key ++ ": " ++ field.display) :: displayFields rest

end

/-- The fault of a value that describes no rule. -/
def improper (v : Value) : Fault :=
  .invalidRule v.display

mutual

/-- The descriptor that a value describes; the fault shows the innermost value that
describes none. -/
def ofValue : Value → Except Fault Descriptor
  | .string source => .ok (type source)
  | .object fields => (ofFields fields).map shape
  | .array [.string source, default] => .ok (defaulted (type source) default)
  | .array [.object fields, default] =>
      (ofFields fields).map fun fields => defaulted (shape fields) default
  | v => .error (improper v)

def ofFields : List (String × Value) → Except Fault (List (String × Descriptor))
  | [] => .ok []
  | (key, v) :: rest =>
      match ofValue v with
      | .error fault => .error fault
      | .ok field => (ofFields rest).map fun fields => (key, field) :: fields

end

end Descriptor

end Switchboard
