import Mathlib
import Switchboard.Registry.Access

/-!
What a run does to its registry. A run keeps a relation if it holds between the registry
before and the registry after, however the run ends. A relation that is reflexive and
transitive goes over from the parts of a run to the run. Any property of attempts that goes
over in this way goes over from the names of a tree to the evaluation of the tree, and so does
any relation between two attempts, even if the tree is evaluated on two values.
-/

namespace Switchboard

variable {σ α β : Type} {rel : Registry σ → Registry σ → Prop}

theorem Run.bind_eq_some_iff {run : Run σ α} {next : α → Run σ β} {registry after : Registry σ}
    {result : β} : (run >>= next) registry = some (result, after) ↔
      ∃ first middle, run registry = some (first, middle) ∧
        next first middle = some (result, after) := by
  change (run registry).bind (fun answer => next answer.1 answer.2) = some (result, after) ↔ _
  rw [Option.bind_eq_some_iff, Prod.exists]

theorem Attempt.run_get_bind (next : Registry σ → Attempt σ β) (registry : Registry σ) :
    ((get : Attempt σ (Registry σ)) >>= next).run registry = (next registry).run registry :=
  rfl

theorem Attempt.run_set_bind (after : Registry σ) (next : PUnit → Attempt σ β)
    (registry : Registry σ) :
    ((set after : Attempt σ PUnit) >>= next).run registry = (next ⟨⟩).run after :=
  rfl

theorem Attempt.run_lift {run : Run σ α} {registry after : Registry σ} {result : α}
    (h : run registry = some (result, after)) :
    (liftM run : Attempt σ α).run registry = some (.ok result, after) := by
  change (run registry).bind _ = _
  rw [h]
  rfl

section

variable {good : Attempt σ Bool → Prop} (hpure : ∀ result, good (pure result))
  (hbind : ∀ attempt next, good attempt → (∀ result, good (next result)) →
    good (attempt >>= next))

include hpure hbind

theorem allPass_induction {passes : Value → Attempt σ Bool} (h : ∀ v, good (passes v))
    (items : List Value) : good (allPass passes items) := by
  induction items with
  | nil => exact hpure true
  | cons v rest ih =>
      refine hbind _ _ (h v) fun passed => ?_
      split
      · exact ih
      · exact hpure false

/-- What holds of results and of two good attempts in a row holds of the evaluation of a
tree, if it holds of the names. -/
theorem Expr.evaluateWith_induction {resolve : String → Value → Attempt σ Bool} {tree : Expr}
    (h : ∀ name ∈ tree.names, ∀ v, good (resolve name v)) (v : Value) :
    good (tree.evaluateWith resolve v) := by
  induction tree generalizing v with
  | named name => exact h name (List.mem_singleton_self name) v
  | or left right ihl ihr =>
      have hleft := ihl fun name hname => h name (List.mem_append_left _ hname)
      refine hbind _ _ (hleft v) fun passed => ?_
      split
      · exact hpure true
      · exact ihr (fun name hname => h name (List.mem_append_right _ hname)) v
  | and left right ihl ihr =>
      have hleft := ihl fun name hname => h name (List.mem_append_left _ hname)
      refine hbind _ _ (hleft v) fun passed => ?_
      split
      · exact ihr (fun name hname => h name (List.mem_append_right _ hname)) v
      · exact hpure false
  | not inner ih => exact hbind _ _ (ih h v) fun passed => hpure !passed
  | arrayOf inner ih =>
      cases v with
      | array items => exact allPass_induction hpure hbind (ih h) items
      | _ => exact hpure false

end

/-- A tree of arrays is evaluated on the items of an array, and on nothing else. -/
theorem Expr.evaluateWith_arrayOf (resolve : String → Value → Attempt σ Bool) (inner : Expr)
    (v : Value) : (Expr.arrayOf inner).evaluateWith resolve v =
      match v.asArray? with
      | some items => allPass (inner.evaluateWith resolve) items
      | none => pure false := by
  cases v <;> rfl

theorem Value.asArray?_rel_of_eq (v w : Value) (h : v = w) :
    Option.Rel (List.Forall₂ Eq) v.asArray? w.asArray? := by
  subst h
  cases v.asArray? with
  | none => exact .none
  | some items => exact .some (List.forall₂_same.mpr fun _ _ => rfl)

section

variable {good : Attempt σ Bool → Attempt σ Bool → Prop}
  (hpure : ∀ result, good (pure result) (pure result))
  (hbind : ∀ left right next next', good left right →
    (∀ result, good (next result) (next' result)) → good (left >>= next) (right >>= next'))
  {rel : Value → Value → Prop}

include hpure hbind

theorem allPass_induction₂ {passes passes' : Value → Attempt σ Bool}
    (h : ∀ v w, rel v w → good (passes v) (passes' w)) {items items' : List Value}
    (hitems : List.Forall₂ rel items items') :
    good (allPass passes items) (allPass passes' items') := by
  induction hitems with
  | nil => exact hpure true
  | cons hhead _ ih =>
      refine hbind _ _ _ _ (h _ _ hhead) fun passed => ?_
      split
      · exact ih
      · exact hpure false

/-- What holds of equal results and of two good pairs in a row holds of two evaluations of a
tree, if it holds of the names. -/
theorem Expr.evaluateWith_induction₂ {resolve resolve' : String → Value → Attempt σ Bool}
    (hrel : ∀ v w, rel v w → Option.Rel (List.Forall₂ rel) v.asArray? w.asArray?)
    (h : ∀ name v w, rel v w → good (resolve name v) (resolve' name w)) (tree : Expr)
    {v w : Value} (hvw : rel v w) :
    good (tree.evaluateWith resolve v) (tree.evaluateWith resolve' w) := by
  induction tree generalizing v w with
  | named name => exact h name v w hvw
  | or left right ihl ihr =>
      refine hbind _ _ _ _ (ihl hvw) fun passed => ?_
      split
      · exact hpure true
      · exact ihr hvw
  | and left right ihl ihr =>
      refine hbind _ _ _ _ (ihl hvw) fun passed => ?_
      split
      · exact ihr hvw
      · exact hpure false
  | not inner ih => exact hbind _ _ _ _ (ih hvw) fun passed => hpure !passed
  | arrayOf inner ih =>
      have hitems := hrel v w hvw
      rw [evaluateWith_arrayOf, evaluateWith_arrayOf]
      generalize v.asArray? = items at hitems
      generalize w.asArray? = items' at hitems
      cases hitems with
      | none => exact hpure false
      | some hitems => exact allPass_induction₂ hpure hbind (fun _ _ hxy => ih hxy) hitems

end

/-- A run that relates the registry before it to the registry after it. -/
def Run.Keeps (rel : Registry σ → Registry σ → Prop) (run : Run σ α) : Prop :=
  ∀ registry result after, run registry = some (result, after) → rel registry after

/-- An attempt that relates the registry before it to the registry after it. -/
abbrev Attempt.Keeps (rel : Registry σ → Registry σ → Prop) (attempt : Attempt σ α) : Prop :=
  Run.Keeps rel attempt.run

theorem Run.keeps_modify {change : Registry σ → Registry σ}
    (h : ∀ registry, rel registry (change registry)) :
    Run.Keeps rel (modify change : Run σ PUnit) := by
  intro registry answer after heq
  obtain ⟨rfl, rfl⟩ := Prod.mk.inj (Option.some.inj heq)
  exact h registry

theorem Run.keeps_exceeded : Run.Keeps rel (Run.exceeded : Run σ α) := by
  intro registry result after h
  cases h

section

variable [IsPreorder (Registry σ) rel]

theorem Run.keeps_pure (result : α) : Run.Keeps rel (pure result : Run σ α) := by
  intro registry answer after h
  obtain ⟨rfl, rfl⟩ := Prod.mk.inj (Option.some.inj h)
  exact refl_of rel registry

theorem Run.keeps_get : Run.Keeps rel (get : Run σ (Registry σ)) := by
  intro registry answer after h
  obtain ⟨rfl, rfl⟩ := Prod.mk.inj (Option.some.inj h)
  exact refl_of rel registry

theorem Run.Keeps.bind {run : Run σ α} {next : α → Run σ β} (hrun : run.Keeps rel)
    (hnext : ∀ result, (next result).Keeps rel) : (run >>= next).Keeps rel := by
  intro registry result after h
  obtain ⟨first, middle, hfirst, hsecond⟩ := Run.bind_eq_some_iff.mp h
  exact trans_of rel (hrun _ _ _ hfirst) (hnext first _ _ _ hsecond)

theorem Attempt.keeps_pure (result : α) : Attempt.Keeps rel (pure result : Attempt σ α) :=
  Run.keeps_pure _

theorem Attempt.keeps_throw (fault : Fault) : Attempt.Keeps rel (throw fault : Attempt σ α) :=
  Run.keeps_pure _

theorem Attempt.keeps_bind {attempt : Attempt σ α} {next : α → Attempt σ β}
    (hattempt : attempt.Keeps rel) (hnext : ∀ result, (next result).Keeps rel) :
    (attempt >>= next).Keeps rel := by
  refine Run.Keeps.bind hattempt fun result => ?_
  cases result with
  | ok value => exact hnext value
  | error fault => exact Run.keeps_pure _

/-- What the names of a tree keep, its evaluation keeps. -/
theorem Expr.evaluateWith_keeps {resolve : String → Value → Attempt σ Bool} {tree : Expr}
    (h : ∀ name ∈ tree.names, ∀ v, (resolve name v).Keeps rel) (v : Value) :
    (tree.evaluateWith resolve v).Keeps rel :=
  Expr.evaluateWith_induction Attempt.keeps_pure (fun _ _ => Attempt.keeps_bind) h v

theorem Attempt.keeps_lift {run : Run σ α} (h : run.Keeps rel) :
    Attempt.Keeps rel (liftM run : Attempt σ α) :=
  Run.Keeps.bind h fun _ => Run.keeps_pure _

end

end Switchboard
