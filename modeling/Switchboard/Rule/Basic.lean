import Switchboard.Registry.Evaluation
import Switchboard.Rule.Descriptor
import Switchboard.Text.Blank

/-!
Rules: matchers of one argument. A scalar rule keeps the tree that its type text had
when the rule was built; the names in the tree are looked up at each test. A shape
rule has a rule for each declared field. A default does not nest in a default, and a
type text is not blank; building fails otherwise.
-/

namespace Switchboard

/-- A matcher of one argument. -/
inductive Rule where
  | scalar (source : String) (tree : Expr) (default? : Option Value)
  | shape (fields : List (String × Rule)) (default? : Option Value)
  deriving Inhabited

namespace Rule

def isShape : Rule → Bool
  | scalar .. => false
  | shape .. => true

def defaultValue? : Rule → Option Value
  | scalar _ _ default? => default?
  | shape _ default? => default?

/-- A text with a default put beside it. -/
def withDefaultText (text : String) : Option Value → String
  | none => text
  | some default => "[" ++ text ++ ", " ++ default.display ++ "]"

mutual

/-- The text of a rule, that of its descriptor. -/
def display : Rule → String
  | scalar source _ default? => withDefaultText (Text.quoted source) default?
  | shape fields default? =>
      withDefaultText ("\x7b" ++ String.intercalate ", " (displayFields fields) ++ "\x7d") default?

def displayFields : List (String × Rule) → List String
  | [] => []
  | (key, field) :: rest => (key ++ ": " ++ field.display) :: displayFields rest

end

variable {σ : Type}

/-- Build the rule of a type text. -/
def buildScalar (answers : Answers σ) (source : String) (default? : Option Value) :
    Attempt σ Rule := do
  if Text.isBlankText source then
    report answers (.invalidRule (Descriptor.type source).display)
  else
    let parsed ← (Registry.compileStep source : Run σ Parsed)
    return scalar source parsed.tree default?

mutual

/-- Build the rule of a descriptor. -/
def build (answers : Answers σ) : Descriptor → Attempt σ Rule
  | .type source => buildScalar answers source none
  | .shape fields => do
      let fields ← buildFields answers fields
      return shape fields none
  | .defaulted (.type source) default => buildScalar answers source (some default)
  | .defaulted (.shape fields) default => do
      let fields ← buildFields answers fields
      return shape fields (some default)
  | .defaulted (.defaulted inner first) second =>
      report answers (.invalidRule (Descriptor.defaulted (.defaulted inner first) second).display)

def buildFields (answers : Answers σ) :
    List (String × Descriptor) → Attempt σ (List (String × Rule))
  | [] => return []
  | (key, field) :: rest => do
      let rule ← build answers field
      let rules ← buildFields answers rest
      return (key, rule) :: rules

end

/-- Build the rules of several descriptors, from left to right. -/
def buildAll (answers : Answers σ) : List Descriptor → Attempt σ (List Rule)
  | [] => return []
  | descriptor :: rest => do
      let rule ← build answers descriptor
      let rules ← buildAll answers rest
      return rule :: rules

end Rule

end Switchboard
