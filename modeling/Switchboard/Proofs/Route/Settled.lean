import Switchboard.Proofs.Dispatch.InTurn

/-!
What a match leaves in its slot. A scalar rule leaves the value it has found. A shape rule
that has looked into its default leaves what it has found as a new object; one that has
looked into an object leaves that object, its keys in their order, with the declared keys it
lacked after them, and under each declared key what has been found.
-/

namespace Switchboard

variable {σ : Type} {answers : Answers σ} {registry after : Registry σ}

namespace Rule

/-- No shape declares a field twice. The fields of a shape are a table, so this holds of
every rule that is built. -/
def DistinctFields : Rule → Prop
  | scalar .. => True
  | shape fields _ => Table.Distinct fields

/-- What a slot holds after a match of a rule: the found value, the found fields as a new
object in an unset slot, or the found fields written over an object. -/
inductive Settles : Rule → Value → Match → Value → Prop
  | scalar {source : String} {tree : Expr} {default? : Option Value} {slot v : Value} :
      Settles (.scalar source tree default?) slot (.value v) v
  | fresh {fields : List (String × Rule)} {default? : Option Value} {slot : Value}
      {found : Table Value} (hslot : slot.isUnset = true)
      (hkeys : found.keys = Table.keys fields) :
      Settles (.shape fields default?) slot (.shape found) (.object found)
  | merged {fields : List (String × Rule)} {default? : Option Value}
      {existing found merged : Table Value} (hkeys : found.keys = Table.keys fields)
      (horder : merged.keys = existing.keys ++
        (Table.keys fields).filter (fun key => !existing.keys.contains key))
      (hdeclared : ∀ key entry, Table.get? key found = some entry →
        Table.get? key merged = some entry)
      (hothers : ∀ key ∉ Table.keys fields, Table.get? key merged = Table.get? key existing) :
      Settles (.shape fields default?) (.object existing) (.shape found) (.object merged)

/-- What is found in a shape has the declared fields, in the order of their declaration. -/
theorem keys_of_testFields {fields : List (String × Rule)} {object found : Table Value}
    (h : (testFields answers fields object).run registry = some (.ok (some found), after)) :
    found.keys = Table.keys fields := by
  induction fields generalizing registry after found with
  | nil =>
      rw [testFields] at h
      obtain ⟨heq, _⟩ := Attempt.run_pure_eq_some_iff.mp h
      cases heq
      rfl
  | cons field rest ih =>
      obtain ⟨key, rule⟩ := field
      rw [testFields] at h
      rcases Attempt.run_bind_eq_some_iff.mp h with ⟨_, _, ⟨⟩⟩ | ⟨result, middle, _, hrest⟩
      cases result with
      | none => cases (Attempt.run_pure_eq_some_iff.mp hrest).1
      | some first =>
          rcases Attempt.run_bind_eq_some_iff.mp hrest with
            ⟨_, _, ⟨⟩⟩ | ⟨others, last, hothers, hlast⟩
          obtain ⟨heq, _⟩ := Attempt.run_pure_eq_some_iff.mp hlast
          cases others with
          | none => cases heq
          | some others =>
              cases heq
              change key :: Table.keys others = key :: Table.keys rest
              rw [ih hothers]

/-- A scalar rule finds a value that it accepts, or its default for an absent one that it does
not accept; in neither case `undefined`. -/
theorem scalarMatch_eq_some_iff {accepted : Bool} {default? : Option Value} {v : Value}
    {found : Match} :
    scalarMatch accepted default? v = some found ↔ ∃ w, found = .value w ∧
      w.isUndefined = false ∧ ((accepted = true ∧ w = v) ∨
        (accepted = false ∧ v.isUndefined = true ∧ default? = some w)) := by
  unfold scalarMatch
  constructor
  · intro h
    split at h
    · next haccepted =>
        split at h
        · cases h
        · next hdefined =>
            cases h
            exact ⟨v, rfl, Bool.not_eq_true _ ▸ hdefined, Or.inl ⟨haccepted, rfl⟩⟩
    · next hrefused =>
        split at h
        · next hundefined =>
            obtain ⟨w, hdefault, rfl⟩ := Option.map_eq_some_iff.mp h
            obtain ⟨hsome, hdefined⟩ := Option.filter_eq_some_iff.mp hdefault
            refine ⟨w, rfl, by simpa using hdefined, Or.inr ⟨?_, hundefined, hsome⟩⟩
            simpa using hrefused
        · cases h
  · rintro ⟨w, rfl, hdefined, ⟨rfl, rfl⟩ | ⟨rfl, hundefined, rfl⟩⟩
    · simp [hdefined]
    · simp [hundefined, hdefined]

/-- A shape rule looks into an unset slot or an object. -/
theorem isUnset_or_of_workingValue {default? : Option Value} {v : Value} {object : Table Value}
    (h : (workingValue default? v).asObject? = some object) :
    v.isUnset = true ∨ v = .object object := by
  unfold workingValue at h
  split at h
  · next hunset => exact Or.inl hunset
  · cases v with
    | object fields =>
        cases h
        exact Or.inr rfl
    | _ => cases h

theorem settle_of_isUnset {slot : Value} (h : slot.isUnset = true)
    (found : List (String × Value)) : (Match.shape found).settle slot = .object found := by
  cases slot <;> first | rfl | cases h

/-- Found fields that are written over an object. -/
theorem settles_object {fields : List (String × Rule)} (hdistinct : Table.Distinct fields)
    (default? : Option Value) {found : Table Value} (hkeys : found.keys = Table.keys fields)
    (existing : Table Value) :
    Settles (.shape fields default?) (.object existing) (.shape found)
      ((Match.shape found).settle (.object existing)) := by
  have hfound : found.Distinct := by
    rwa [Table.Distinct, hkeys]
  refine .merged hkeys ?_ ?_ ?_
  · rw [Table.keys_insertAll hfound, hkeys]
  · intro key entry hentry
    rw [Table.get?_insertAll hfound, hentry, Option.some_or]
  · intro key hkey
    rw [← hkeys, ← Table.get?_eq_none_iff] at hkey
    rw [Table.get?_insertAll hfound, hkey, Option.none_or]

/-- A shape rule looks into an object that it is given. -/
theorem test_object (answers : Answers σ) (fields : List (String × Rule))
    (default? : Option Value) (object : Table Value) :
    test answers (.shape fields default?) (.object object) = (do
      let found ← testFields answers fields object
      return found.map Match.shape) := by
  rw [test]
  rfl

/-- A shape rule matches if its declared fields match in the object that it looks into. -/
theorem exists_of_test_shape {fields : List (String × Rule)} {default? : Option Value}
    {slot : Value} {found : Match}
    (h : (test answers (.shape fields default?) slot).run registry =
      some (.ok (some found), after)) :
    ∃ object entries, (workingValue default? slot).asObject? = some object ∧
      (testFields answers fields object).run registry = some (.ok (some entries), after) ∧
      found = .shape entries := by
  rw [test] at h
  split at h
  · cases (Attempt.run_pure_eq_some_iff.mp h).1
  · next object hobject =>
      rcases Attempt.run_bind_eq_some_iff.mp h with ⟨_, _, ⟨⟩⟩ | ⟨result, middle, hfields, hrest⟩
      obtain ⟨heq, rfl⟩ := Attempt.run_pure_eq_some_iff.mp hrest
      cases result with
      | none => cases heq
      | some entries =>
          cases heq
          exact ⟨object, entries, hobject, hfields, rfl⟩

/-- A rule that has matched settles its slot. -/
theorem settles_of_test {rule : Rule} (hdistinct : rule.DistinctFields) {slot : Value}
    {found : Match} (h : (rule.test answers slot).run registry = some (.ok (some found), after)) :
    rule.Settles slot found (found.settle slot) := by
  cases rule with
  | scalar source tree default? =>
      rw [test] at h
      rcases Attempt.run_bind_eq_some_iff.mp h with ⟨_, _, ⟨⟩⟩ | ⟨accepted, middle, _, hrest⟩
      obtain ⟨heq, _⟩ := Attempt.run_pure_eq_some_iff.mp hrest
      obtain ⟨w, rfl, _⟩ := scalarMatch_eq_some_iff.mp (Except.ok.inj heq).symm
      exact .scalar
  | shape fields default? =>
      obtain ⟨object, entries, hobject, hfields, rfl⟩ := exists_of_test_shape h
      have hkeys := keys_of_testFields hfields
      rcases isUnset_or_of_workingValue hobject with hunset | rfl
      · rw [settle_of_isUnset hunset]
        exact .fresh hunset hkeys
      · exact settles_object hdistinct default? hkeys object

end Rule

namespace Match

theorem length_settleAll (found : List Match) (arguments : List Value) :
    (settleAll found arguments).length = found.length := by
  induction found generalizing arguments with
  | nil => rfl
  | cons first rest ih => rw [settleAll, List.length_cons, List.length_cons, ih]

theorem getElem?_settleAll (found : List Match) (arguments : List Value) (position : Nat) :
    (settleAll found arguments)[position]? = found[position]?.map fun found =>
      found.settle (arguments[position]?.getD .undefined) := by
  induction found generalizing arguments position with
  | nil => rfl
  | cons first rest ih =>
      cases position with
      | zero => cases arguments <;> rfl
      | succ position =>
          rw [settleAll, List.getElem?_cons_succ, List.getElem?_cons_succ, ih]
          cases arguments <;> rfl

end Match

/-- A slot past the end of the arguments is `undefined`, written out or not. -/
theorem getD_append_undefined (arguments : List Value) (count position : Nat) :
    (arguments ++ List.replicate count Value.undefined)[position]?.getD .undefined =
      arguments[position]?.getD .undefined := by
  rcases Nat.lt_or_ge position arguments.length with hlt | hge
  · rw [List.getElem?_append_left hlt]
  · rw [List.getElem?_append_right hge, List.getElem?_eq_none hge, List.getElem?_replicate]
    split <;> rfl

theorem Match.settleAll_append_undefined (found : List Match) (arguments : List Value)
    (count : Nat) :
    settleAll found (arguments ++ List.replicate count .undefined) =
      settleAll found arguments := by
  apply List.ext_getElem?
  intro position
  rw [getElem?_settleAll, getElem?_settleAll, getD_append_undefined]

/-- Missing arguments and `undefined` ones are tested alike. -/
theorem Rule.testAll_append_undefined (answers : Answers σ) (rules : List Rule)
    (arguments : List Value) (count : Nat) :
    testAll answers rules (arguments ++ List.replicate count .undefined) =
      testAll answers rules arguments := by
  induction rules generalizing arguments count with
  | nil => rfl
  | cons rule rules ih =>
      rw [testAll, testAll]
      cases arguments with
      | cons argument rest =>
          rw [List.cons_append, List.headD_cons, List.headD_cons, List.tail_cons, List.tail_cons,
            ih rest count]
      | nil =>
          cases count with
          | zero => rfl
          | succ count =>
              rw [List.nil_append, List.replicate_succ, List.headD_cons, List.tail_cons,
                List.tail_nil, ← List.nil_append (List.replicate count _), ih [] count]
              rfl

end Switchboard
