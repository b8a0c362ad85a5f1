import Switchboard.Expr.Parser
import Switchboard.Table

/-!
The compile cache. Trees are kept under source texts, raw and normal ones alike. A
tree that enters the cache gets a serial number, and texts that share a parse share
the number, so "the same tree" can be told from "an equal tree". A text that is a
defined name means that name; any other text means what its normal spelling means.
-/

namespace Switchboard

/-- A compiled tree and the number of the parse that made it. -/
structure Parsed where
  tree : Expr
  serial : Nat
  deriving DecidableEq, Repr

/-- Compiled trees under their texts, and the number of the next parse. -/
structure Cache where
  entries : Table Parsed
  nextSerial : Nat

namespace Cache

def empty : Cache := ⟨[], 0⟩

/-- How many texts are kept. -/
def size (cache : Cache) : Nat :=
  cache.entries.length

/-- The tree under a text. -/
def get? (source : String) (cache : Cache) : Option Parsed :=
  Table.get? source cache.entries

/-- Keep a tree under a further text. -/
def share (source : String) (parsed : Parsed) (cache : Cache) : Cache :=
  { cache with entries := Table.insert source parsed cache.entries }

/-- Keep a new tree under a text. -/
def add (source : String) (tree : Expr) (cache : Cache) : Parsed × Cache :=
  let parsed : Parsed := ⟨tree, cache.nextSerial⟩
  (parsed, ⟨Table.insert source parsed cache.entries, cache.nextSerial + 1⟩)

/-- Forget all trees; numbers are not given out again. -/
def clear (cache : Cache) : Cache :=
  { cache with entries := [] }

/-- The tree of a normal spelling, parsed at most once. -/
def compileNormal (defined : String → Bool) (normalized : String) (cache : Cache) :
    Parsed × Cache :=
  match cache.get? normalized with
  | some parsed => (parsed, cache)
  | none => cache.add normalized (Parser.parse defined normalized)

/-- The tree of a source text. -/
def compile (defined : String → Bool) (source : String) (cache : Cache) : Parsed × Cache :=
  match cache.get? source with
  | some parsed => (parsed, cache)
  | none =>
      if defined source then cache.add source (.named source)
      else
        let (parsed, cache) := cache.compileNormal defined (Spelling.normalize source)
        (parsed, cache.share source parsed)

/-- The tree that a text has in an empty cache. -/
def meaning (defined : String → Bool) (source : String) : Expr :=
  if defined source then .named source else Parser.parse defined (Spelling.normalize source)

end Cache

end Switchboard
