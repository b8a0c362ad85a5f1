/-!
Kinds: the nine atomic sorts of values, and sets of them. A set is nine bits, one
per kind; a value has exactly one kind.
-/

namespace Switchboard

/-- The atomic sort of a value. -/
inductive Kind where
  | undefined
  | null
  | boolean
  | number
  | string
  | regexp
  | array
  | object
  | function
  deriving DecidableEq, Repr

namespace Kind

/-- All kinds in the order of their bits. -/
def all : List Kind :=
  [undefined, null, boolean, number, string, regexp, array, object, function]

/-- The position of a kind's bit. -/
def index : Kind → Nat
  | undefined => 0
  | null => 1
  | boolean => 2
  | number => 3
  | string => 4
  | regexp => 5
  | array => 6
  | object => 7
  | function => 8

/-- The name under which a kind is a predicate. -/
def name : Kind → String
  | undefined => "undefined"
  | null => "null"
  | boolean => "boolean"
  | number => "number"
  | string => "string"
  | regexp => "regexp"
  | array => "array"
  | object => "object"
  | function => "function"

/-- The kind of a name. -/
def ofName? (name : String) : Option Kind :=
  all.find? fun kind => kind.name == name

theorem mem_all (kind : Kind) : kind ∈ all := by
  cases kind <;> decide

theorem ofName?_name (kind : Kind) : ofName? kind.name = some kind := by
  cases kind <;> decide

end Kind

/-- A set of kinds, one bit per kind. -/
structure Kinds where
  bits : BitVec 9
  deriving DecidableEq, Repr

namespace Kinds

def empty : Kinds := ⟨0⟩

/-- Every kind. -/
def all : Kinds := ⟨BitVec.allOnes 9⟩

/-- One kind alone. -/
def single (kind : Kind) : Kinds :=
  ⟨BitVec.ofNat 9 (Nat.pow 2 kind.index)⟩

def union (a b : Kinds) : Kinds :=
  ⟨a.bits ||| b.bits⟩

def ofList (kinds : List Kind) : Kinds :=
  kinds.foldl (fun set kind => set.union (single kind)) empty

def contains (set : Kinds) (kind : Kind) : Bool :=
  set.bits.getLsbD kind.index

/-- The members in the order of their bits. -/
def toList (set : Kinds) : List Kind :=
  Kind.all.filter set.contains

/-- A set as shown in a listing: the members' names in capitals, or a bare zero. -/
def display (set : Kinds) : String :=
  let members := match set.toList with
    | [] => "0x0"
    | kinds => String.intercalate " | " (kinds.map fun kind => kind.name.map Char.toUpper)
  "Kinds(" ++ members ++ ")"

theorem contains_single (a b : Kind) : (single a).contains b = decide (a = b) := by
  cases a <;> cases b <;> decide

theorem contains_all (kind : Kind) : all.contains kind = true := by
  cases kind <;> decide

theorem contains_union (a b : Kinds) (kind : Kind) :
    (a.union b).contains kind = (a.contains kind || b.contains kind) := by
  simp [contains, union]

end Kinds

end Switchboard
