import Switchboard.Proofs.Registry.Aliases
import Switchboard.Proofs.Registry.Precedence
import Switchboard.Proofs.Registry.Unattended
import Switchboard.Proofs.Value.Equality

/-!
Which values are numeric. What decides is the leading leaf, the value that is left when an array
is replaced by its first item until it is no array: a number that is not NaN, or a string that
starts with a number. The texts of all other leaves start with a letter, a slash or a bracket,
and no number goes on over the comma behind a first item.
-/

namespace Switchboard

variable {σ : Type}

namespace Value

open Registry (isNumeric)

/-- The first value in an array, at any depth, that is no array. An empty array has none. -/
def leadingLeaf? : Value → Option Value
  | array [] => none
  | array (x :: _) => x.leadingLeaf?
  | v => some v

/-- A number other than NaN, or a string that starts with a number. -/
inductive Numeric : Value → Prop
  | number {n : Number} (h : n.isNaN = false) : Numeric (number n)
  | string {s : String} (h : Number.StartsNumber s.toList) : Numeric (string s)

/-- A number needs no text: it is NaN if and only if its text starts with no number. -/
theorem isNumeric_eq_isSome_leading? (v : Value) :
    isNumeric v = (Number.leading? v.plainText).isSome := by
  cases v with
  | number n => exact (Number.isSome_leading?_text n).symm
  | _ => rfl

/-- An array is numeric if and only if its first item is; an unset item has no text in an array,
and is not numeric anyway. -/
theorem isNumeric_array (x : Value) (xs : List Value) :
    isNumeric (array (x :: xs)) = isNumeric x := by
  rw [isNumeric_eq_isSome_leading?, isNumeric_eq_isSome_leading?, leading?_plainText_array]
  split
  · next hunset => cases x <;> first | rfl | cases hunset
  · rfl

theorem isNumeric_iff_numeric {v : Value} (h : v.kind ≠ .array) :
    isNumeric v = true ↔ Numeric v := by
  have hneither (hnot : isNumeric v = false) (hno : ¬ Numeric v) : isNumeric v = true ↔ Numeric v := by
    rw [hnot]
    exact iff_of_false Bool.false_ne_true hno
  cases v with
  | array => exact absurd rfl h
  | number n =>
      rw [isNumeric, Bool.not_eq_true']
      refine ⟨.number, fun h => ?_⟩
      cases h with
      | number h => exact h
  | string s =>
      rw [isNumeric_eq_isSome_leading?]
      refine Number.isSome_leading?_iff.trans ⟨.string, fun h => ?_⟩
      cases h with
      | string h => exact h
  | boolean b =>
      refine hneither ?_ fun h => by cases h
      cases b <;> rfl
  | undefined | null | regexp | object | function => exact hneither rfl fun h => by cases h

/-- A value is numeric if and only if it has a leading leaf that is. -/
theorem isNumeric_iff_leadingLeaf? (v : Value) :
    isNumeric v = true ↔ ∃ leaf, v.leadingLeaf? = some leaf ∧ Numeric leaf := by
  have hleaf (hkind : v.kind ≠ .array) (hself : v.leadingLeaf? = some v) :
      isNumeric v = true ↔ ∃ leaf, v.leadingLeaf? = some leaf ∧ Numeric leaf := by
    simp [hself, isNumeric_iff_numeric hkind]
  match v with
  | array [] =>
      refine iff_of_false Bool.false_ne_true ?_
      rintro ⟨_, hleaf, _⟩
      cases hleaf
  | array (x :: xs) => rw [isNumeric_array, leadingLeaf?, isNumeric_iff_leadingLeaf? x]
  | undefined | null | boolean _ | number _ | string _ | regexp _ | object _ | function _ =>
      exact hleaf (fun hkind => by cases hkind) rfl

end Value

namespace Registry

/-- A name that means itself and is bound to a condition answers what the condition says. -/
theorem evaluate_of_condition (answers : Answers σ) {registry : Registry σ} {name : String}
    {holds : Value → Bool} (htree : (registry.compile name).1.tree = .named name)
    (hbinding : Table.get? name registry.bindings = some (.test (.ofCondition holds)))
    (v : Value) : (evaluate answers name v).run registry =
      some (.ok (holds v), (registry.compile name).2) := by
  have hnamed (hops : Nat) : ∃ follow, evaluateFrom answers hops (.named name) v =
      resolve answers follow name v := by
    cases hops <;> (rw [evaluateFrom]; exact ⟨_, rfl⟩)
  obtain ⟨follow, hfollow⟩ := hnamed registry.options.maxAliasDepth
  have hrun : (evaluate answers name v).run registry =
      (evaluateFrom answers registry.options.maxAliasDepth (registry.compile name).1.tree v).run
        (registry.compile name).2 := rfl
  have hcompiled : Table.get? name (registry.compile name).2.bindings =
      some (.test (.ofCondition holds)) := hbinding
  rw [hrun, htree, hfollow, resolve_run, hcompiled]
  rfl

open Value (Numeric)

/-- Wherever `numeric` is still the built-in condition, it accepts the values whose leading leaf is
numeric. So it makes no difference that numbers are not turned into text, and none what stands
behind the first item of an array; and the decimal at the start of a text can always be read. -/
theorem evaluate_numeric (answers : Answers σ) {options : Options} {state : σ}
    {registry : Registry σ} (hreach : ReachableFrom options state registry)
    (hbinding : Table.get? "numeric" registry.bindings = some (.test (.ofCondition isNumeric)))
    (v : Value) :
    (evaluate answers "numeric" v).run registry =
      some (.ok (isNumeric v), (registry.compile "numeric").2) ∧
    (isNumeric v = true ↔ ∃ leaf, v.leadingLeaf? = some leaf ∧ Numeric leaf) ∧
    isNumeric v = (Number.leading? v.plainText).isSome ∧
    (∀ (x : Value) (xs ys : List Value),
      isNumeric (.array (x :: xs)) = isNumeric (.array (x :: ys))) ∧
    ∀ text decimal, Number.decimalPrefix? text = some decimal →
      (Number.read? (String.ofList decimal)).isSome = true := by
  have hsecure : Secure options state "numeric" :=
    ⟨Or.inr (by decide), fun _ => Groups.groupless_of_notMem (by decide)⟩
  have htree := compile_settled hreach hsecure (contains_of_get? hbinding)
  refine ⟨evaluate_of_condition answers htree hbinding v, v.isNumeric_iff_leadingLeaf?,
    v.isNumeric_eq_isSome_leading?, fun x xs ys => ?_, fun text decimal hdecimal => ?_⟩
  · rw [Value.isNumeric_array, Value.isNumeric_array]
  · refine Number.IsDecimal.isSome_read? ?_
    rw [String.toList_ofList]
    exact Number.isDecimal_of_decimalPrefix? hdecimal

/-- A text with an unfinished exponent, before an item that is no number. -/
theorem evaluate_numeric_nested :
    let v := Value.array [.array [.string " -.5e,x", .null], .number .nan]
    (evaluate .exceeded "numeric" v).run (new .standard ()) =
      some (.ok true, ((new .standard ()).compile "numeric").2) := by
  intro v
  have hreach : ReachableFrom .standard () (new .standard ()) := .refl
  have hnumeric := evaluate_numeric .exceeded hreach rfl v
  have haccepted : isNumeric v = true :=
    hnumeric.2.1.mpr ⟨.string " -.5e,x", rfl, .string ⟨[' '], ['-'], ".5e,x".toList, rfl,
      List.forall_mem_singleton.mpr rfl, .minus, .point rfl _⟩⟩
  rw [hnumeric.1, haccepted]

end Registry

end Switchboard
