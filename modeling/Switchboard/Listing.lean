import Switchboard.Dispatcher

/-!
Listings: texts that show how something is built, constructor by constructor, for
inspection. Numbers are listed with a point or an exponent, so that they are told
from integers; functions and behaviors show no more than that they are there.
-/

namespace Switchboard

/-- A bracketed list of texts. -/
def listingOf (opening : String) (parts : List String) (closing : String) : String :=
  opening ++ String.intercalate ", " parts ++ closing

/-- A number in listings: scientific below `10 ^ (-4)` and from `10 ^ 16` on, else
positional with at least one place. -/
def Number.listing (n : Number) : String :=
  let sign := if n.isNegative && !n.isNaN then "-" else ""
  if n.isNaN then "NaN"
  else if n.isInfinite then sign ++ "inf"
  else if n.isZero then sign ++ "0.0"
  else if n.units * tenTo 4 < unitsPerOne || tenTo 16 * unitsPerOne ≤ n.units then
    let decimal := n.shortest
    let digits := Nat.toDigits 10 decimal.digits
    let exponent := decimal.exponent + (digits.length : Int) - 1
    let point := if digits.length = 1 then [] else ['.']
    sign ++ String.ofList (digits.take 1 ++ point ++ digits.drop 1) ++ "e" ++ toString exponent
  else
    let text := n.shortest.text
    sign ++ String.ofList (if text.contains '.' then text else text ++ ['.', '0'])

/-- A function in listings. -/
def Function.listing (f : Function) : String :=
  "Function \x7b name: " ++ Text.quoted f.name ++ ", body: \"<function>\" \x7d"

namespace Value

mutual

def listing : Value → String
  | undefined => "Undefined"
  | null => "Null"
  | boolean b => if b then "Bool(true)" else "Bool(false)"
  | number n => "Number(" ++ n.listing ++ ")"
  | string s => "String(" ++ Text.quoted s ++ ")"
  | regexp pattern => "Regex(Regex(" ++ Text.quoted pattern ++ "))"
  | array items => "Array(" ++ listingOf "[" (listingItems items) "]" ++ ")"
  | object fields => "Object(" ++ listingOf "\x7b" (listingFields fields) "\x7d" ++ ")"
  | function f => "Function(" ++ f.listing ++ ")"

def listingItems : List Value → List String
  | [] => []
  | item :: rest => item.listing :: listingItems rest

def listingFields : List (String × Value) → List String
  | [] => []
  | (key, entry) :: rest => (Text.quoted key ++ ": " ++ entry.listing) :: listingFields rest

end

end Value

def Expr.listing : Expr → String
  | named name => "Named(" ++ Text.quoted name ++ ")"
  | or left right => "Or(" ++ left.listing ++ ", " ++ right.listing ++ ")"
  | and left right => "And(" ++ left.listing ++ ", " ++ right.listing ++ ")"
  | not inner => "Not(" ++ inner.listing ++ ")"
  | arrayOf inner => "ArrayOf(" ++ inner.listing ++ ")"

namespace Descriptor

mutual

def listing : Descriptor → String
  | type source => "Type(" ++ Text.quoted source ++ ")"
  | shape fields => "Shape(" ++ listingOf "\x7b" (listingFields fields) "\x7d" ++ ")"
  | defaulted inner default => "Defaulted(" ++ inner.listing ++ ", " ++ default.listing ++ ")"

def listingFields : List (String × Descriptor) → List String
  | [] => []
  | (key, field) :: rest => (Text.quoted key ++ ": " ++ field.listing) :: listingFields rest

end

end Descriptor

namespace Rule

/-- The parts of a rule side by side. -/
def listingParts (kind : String) (default? : Option Value) : String :=
  let default := match default? with
    | none => "None"
    | some default => "Some(" ++ default.listing ++ ")"
  "Rule \x7b kind: " ++ kind ++ ", default: " ++ default ++ " \x7d"

mutual

def listing : Rule → String
  | scalar source tree default? =>
      listingParts ("Scalar \x7b source: " ++ Text.quoted source ++ ", expr: " ++ tree.listing ++
        " \x7d") default?
  | shape fields default? =>
      listingParts ("Shape(" ++ listingOf "\x7b" (listingFields fields) "\x7d" ++ ")") default?

def listingFields : List (String × Rule) → List String
  | [] => []
  | (key, field) :: rest => (Text.quoted key ++ ": " ++ field.listing) :: listingFields rest

end

end Rule

variable {σ S : Type}

def Route.listing (route : Route σ S) : String :=
  "Route \x7b rules: " ++ listingOf "[" (route.rules.map Rule.listing) "]" ++ ", .. \x7d"

def Item.listing : Item σ S → String
  | rules descriptors => "Rules(" ++ listingOf "[" (descriptors.map Descriptor.listing) "]" ++ ")"
  | behavior _ => "Behavior(<function>)"

/-- The items of a sequence. -/
def Item.listingAll (items : List (Item σ S)) : String :=
  listingOf "[" (items.map Item.listing) "]"

def Dispatcher.listing (table : Dispatcher σ S) : String :=
  "Dispatcher \x7b routes: " ++ listingOf "[" (table.routes.map Route.listing) "]" ++ ", .. \x7d"

/-- A test that accepts a set of kinds. -/
def Kinds.listing (set : Kinds) : String :=
  "Kinds(" ++ set.display ++ ")"

/-- The settings of a registry and the sizes of its two tables. -/
def Registry.listing (registry : Registry σ) : String :=
  let builtins := if registry.options.builtins then "true" else "false"
  let options := "Options \x7b builtins: " ++ builtins ++
    ", max_alias_depth: " ++ toString registry.options.maxAliasDepth ++ " \x7d"
  "Registry \x7b options: " ++ options ++ ", predicates: " ++ toString registry.size ++
    ", compiled: " ++ toString registry.cachedExpressions ++ " \x7d"

end Switchboard
