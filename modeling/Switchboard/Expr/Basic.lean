/-!
Type expressions as trees. Leaves are names of predicates, which are looked up only
when the tree is evaluated. `render` writes source text for a tree: both operands
of `or` and `and` stand in one group, and `not` takes a group around `array`.
-/

namespace Switchboard

/-- A type expression. -/
inductive Expr where
  | named (name : String)
  | or (left right : Expr)
  | and (left right : Expr)
  | not (inner : Expr)
  /-- An array whose every item satisfies the inner expression. -/
  | arrayOf (inner : Expr)
  deriving DecidableEq, Repr, Inhabited

namespace Expr

/-- The names in a tree from left to right, with repetitions. -/
def names : Expr → List String
  | named name => [name]
  | or left right => left.names ++ right.names
  | and left right => left.names ++ right.names
  | not inner => inner.names
  | arrayOf inner => inner.names

def isArrayOf : Expr → Bool
  | arrayOf _ => true
  | _ => false

/-- Source text for a tree. -/
def render : Expr → String
  | named name => name
  | or left right => "(" ++ left.render ++ " or " ++ right.render ++ ")"
  | and left right => "(" ++ left.render ++ " and " ++ right.render ++ ")"
  | not inner =>
      if inner.isArrayOf then "not (" ++ inner.render ++ ")" else "not " ++ inner.render
  | arrayOf inner => inner.render ++ " array"

end Expr

end Switchboard
