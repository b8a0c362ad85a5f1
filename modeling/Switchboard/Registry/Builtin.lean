import Switchboard.Number.Leading
import Switchboard.Registry.Basic
import Switchboard.Value.Display

/-!
The predicates that a registry starts with: one per kind, `any`, three conditions on
single values, and seven aliases.
-/

namespace Switchboard.Registry

variable {σ : Type}

/-- How many UTF-16 units a text takes. -/
def units16 (text : String) : Nat :=
  text.toList.foldl (fun count c => if c.toNat < 0x10000 then count + 1 else count + 2) 0

/-- A string of exactly one UTF-16 unit. -/
def isChar : Value → Bool
  | .string s => units16 s == 1
  | _ => false

/-- A number other than NaN, or a value whose plain text starts with a number. -/
def isNumeric : Value → Bool
  | .number n => !n.isNaN
  | v => (Number.leading? v.plainText).isSome

/-- A finite whole number below the size from which on numbers are written with an
exponent. -/
def isInt : Value → Bool
  | .number n => n.isWhole && n.isBelow (tenTo 21)
  | _ => false

/-- The built-in bindings in the order in which they are made. -/
def builtins : List (String × Binding σ) :=
  let ofKind (kind : Kind) : String × Binding σ := (kind.name, .test (.kinds (.single kind)))
  [ofKind .string, ofKind .number, ofKind .boolean, ofKind .regexp, ofKind .object,
    ofKind .array, ofKind .function, ofKind .null, ofKind .undefined,
    ("any", .test (.kinds .all)),
    ("char", .test (.ofCondition isChar)),
    ("numeric", .test (.ofCondition isNumeric)),
    ("int", .test (.ofCondition isInt)),
    ("catchall", .alias "any"),
    ("defined", .alias "not undefined"),
    ("unset", .alias "undefined or null"),
    ("set", .alias "not unset"),
    ("character", .alias "char"),
    ("regex", .alias "regexp"),
    ("integer", .alias "int")]

/-- A registry with the given settings and nothing but what they install. -/
def new (options : Options) (state : σ) : Registry σ where
  options := options
  bindings := if options.builtins then builtins else []
  cache := .empty
  hook := raising
  consulted := []
  state := state

end Switchboard.Registry
