import Switchboard.Registry.Basic
import Switchboard.Text.Blank
import Switchboard.Text.Word

/-!
Definitions. A name is bound to a test or to an alias after four checks: the name is
not blank; it is not taken, where it may not be; an alias is not blank; and every
name in the alias is defined and is not the name being bound. A fault that the hook
recovers from leaves the bindings as they were. A new name that is no plain word can
change how texts are read, so it empties the compile cache.
-/

namespace Switchboard.Registry

variable {σ : Type}

/-- The objection to an alias whose tree has these names, from left to right. -/
def nameObjection? (registry : Registry σ) (name source : String) : List String → Option Objection
  | [] => none
  | referenced :: rest =>
      if referenced = name then some (.refersToItself source)
      else if registry.contains referenced then registry.nameObjection? name source rest
      else some (.undefinedReference referenced)

/-- The objection to an alias, with the registry that has compiled it. -/
def aliasObjection? (registry : Registry σ) (name source : String) :
    Option Objection × Registry σ :=
  if Text.isBlankText source then (some .emptyAlias, registry)
  else
    let (parsed, registry) := registry.compile source
    (registry.nameObjection? name source parsed.tree.names, registry)

/-- The fault that keeps a binding from being made, with the registry after the
check. -/
def bindFault? (registry : Registry σ) (overriding : Bool) (name : String) (binding : Binding σ) :
    Option Fault × Registry σ :=
  if Text.isBlankText name then (some (.invalidDefinition name .emptyName), registry)
  else if !overriding && registry.contains name then (some (.duplicateType name), registry)
  else
    match binding with
    | .test _ => (none, registry)
    | .alias source =>
        let (objection, registry) := registry.aliasObjection? name source
        (objection.map (.invalidDefinition name), registry)

/-- The registry with a checked binding made. -/
def makeBinding (registry : Registry σ) (name : String) (binding : Binding σ) : Registry σ :=
  let bound := registry.install name binding
  if registry.contains name || Text.isPlainWord name then bound
  else { bound with cache := bound.cache.clear }

/-- Bind a name, over an earlier binding only if `overriding`. -/
def bind (answers : Answers σ) (overriding : Bool) (name : String) (binding : Binding σ) :
    Attempt σ Unit := do
  let registry ← get
  let (fault, checked) := registry.bindFault? overriding name binding
  set checked
  match fault with
  | some fault => recover answers fault
  | none => set (checked.makeBinding name binding)

/-- Bind a new name. -/
def define (answers : Answers σ) (name : String) (binding : Binding σ) : Attempt σ Unit :=
  bind answers false name binding

/-- Bind a name, new or not. -/
def redefine (answers : Answers σ) (name : String) (binding : Binding σ) : Attempt σ Unit :=
  bind answers true name binding

end Switchboard.Registry
