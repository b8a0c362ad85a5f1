import Switchboard.Proofs.Route.Rewriting

/-!
What a matched call keeps of an object. A match of a shape rule holds the declared fields
alone, at every depth, and it is written over the object in its slot: so the fields of that
object that the rule does not declare stay, with all that is beneath them. No such thing
happens further down. An object under a declared field is replaced by what the rule of the
field has found there, and a field of it that this rule does not declare is gone.
-/

namespace Switchboard

variable {σ S : Type} {answers : Answers σ} {registry after : Registry σ}

/-- What is found in a value by following a path of keys. -/
def Value.at? : Value → List String → Option Value
  | v, [] => some v
  | v, key :: path => (v.field? key).bind fun entry => entry.at? path

namespace Rule

/-- A path that leaves the declared fields of a shape rule: at its first key, or at a later
one, below fields that are declared by nested shape rules. -/
inductive Undeclared : Rule → List String → Prop
  | here {fields : List (String × Rule)} {default? : Option Value} {key : String}
      {path : List String} (hkey : key ∉ Table.keys fields) :
      Undeclared (.shape fields default?) (key :: path)
  | inside {fields : List (String × Rule)} {default? : Option Value} {key : String}
      {path : List String} {rule : Rule} (hrule : Table.get? key fields = some rule)
      (hpath : rule.Undeclared path) : Undeclared (.shape fields default?) (key :: path)

/-- Under a declared field stands what the rule of the field has found in that field. -/
theorem get?_of_testFields {fields : List (String × Rule)} {object found : Table Value}
    (h : (testFields answers fields object).run registry = some (.ok (some found), after))
    {key : String} {rule : Rule} (hrule : Table.get? key fields = some rule) :
    ∃ here before middle, (rule.test answers ((Table.get? key object).getD .undefined)).run
        before = some (.ok (some here), middle) ∧ Table.get? key found = some here.toValue := by
  induction fields generalizing registry found with
  | nil => cases hrule
  | cons field rest ih =>
      obtain ⟨first, firstRule⟩ := field
      rw [testFields] at h
      rcases Attempt.run_bind_eq_some_iff.mp h with ⟨_, _, ⟨⟩⟩ | ⟨result, middle, hfirst, hrest⟩
      cases result with
      | none => cases (Attempt.run_pure_eq_some_iff.mp hrest).1
      | some here =>
          rcases Attempt.run_bind_eq_some_iff.mp hrest with
            ⟨_, _, ⟨⟩⟩ | ⟨others, last, hothers, hlast⟩
          obtain ⟨heq, rfl⟩ := Attempt.run_pure_eq_some_iff.mp hlast
          cases others with
          | none => cases heq
          | some others =>
              cases heq
              rw [Table.get?] at hrule
              change ∃ here before middle, _ ∧ (if first = key then _ else _) = _
              split at hrule
              · next heq =>
                  subst heq
                  cases hrule
                  exact ⟨here, registry, middle, hfirst, if_pos rfl⟩
              · next hne =>
                  rw [if_neg hne]
                  exact ih hothers hrule

/-- A match holds nothing on a path that its rule does not declare. -/
theorem at?_of_undeclared {rule : Rule} {path : List String} (h : rule.Undeclared path)
    {slot : Value} {found : Match}
    (hrun : (rule.test answers slot).run registry = some (.ok (some found), after)) :
    found.toValue.at? path = none := by
  induction h generalizing slot found registry after with
  | @here fields default? key path hkey =>
      obtain ⟨_, entries, _, hfields, rfl⟩ := exists_of_test_shape hrun
      rw [← keys_of_testFields hfields, ← Table.get?_eq_none_iff] at hkey
      change (Table.get? key entries).bind _ = none
      rw [hkey, Option.bind_none]
  | @inside fields default? key path rule hrule hpath ih =>
      obtain ⟨_, entries, _, hfields, rfl⟩ := exists_of_test_shape hrun
      obtain ⟨here, _, _, hhere, hentry⟩ := get?_of_testFields hfields hrule
      change (Table.get? key entries).bind _ = none
      rw [hentry, Option.bind_some]
      exact ih hhere

/-- Settling an object by a shape rule keeps what is beneath fields that are not declared, and
drops what nested shape rules do not declare. -/
theorem at?_settle_of_test {fields : List (String × Rule)} (hdistinct : Table.Distinct fields)
    {default? : Option Value} {existing : Table Value} {found : Match}
    (hrun : (test answers (.shape fields default?) (.object existing)).run registry =
      some (.ok (some found), after)) :
    ∃ merged, found.settle (.object existing) = .object merged ∧
      (∀ key ∉ Table.keys fields, ∀ path,
        (Value.object merged).at? (key :: path) = (Value.object existing).at? (key :: path)) ∧
      ∀ key rule path, Table.get? key fields = some rule → rule.Undeclared path →
        (Value.object merged).at? (key :: path) = none := by
  obtain ⟨object, entries, _, hfields, rfl⟩ := exists_of_test_shape hrun
  have hkeys := keys_of_testFields hfields
  have hentries : Table.Distinct entries := by
    rwa [Table.Distinct, hkeys]
  refine ⟨_, rfl, fun key hkey path => ?_, fun key rule path hrule hpath => ?_⟩
  · rw [← hkeys, ← Table.get?_eq_none_iff] at hkey
    change (Table.get? key (Table.insertAll entries existing)).bind _ = _
    rw [Table.get?_insertAll hentries, hkey, Option.none_or]
    rfl
  · obtain ⟨here, _, _, hhere, hentry⟩ := get?_of_testFields hfields hrule
    change (Table.get? key (Table.insertAll entries existing)).bind _ = none
    rw [Table.get?_insertAll hentries, hentry, Option.some_or, Option.bind_some]
    exact at?_of_undeclared hpath hhere

end Rule

namespace Route

/-- A matched call keeps each field that the shape rule of an object argument does not declare,
with all that is beneath it. Below the declared fields it keeps what is declared: on a path
that leaves the fields of a nested shape rule the rewritten argument has nothing. -/
theorem testInPlace_keeps_undeclared (answers : Answers σ) (route : Route σ S)
    (hdistinct : ∀ rule ∈ route.rules, rule.DistinctFields) {arguments slots : List Value}
    {registry after : Registry σ}
    (hrun : (route.testInPlace answers).run arguments registry = some ((.ok true, slots), after))
    {position : Nat} {fields : List (String × Rule)} {default? : Option Value}
    (hrule : route.rules[position]? = some (.shape fields default?)) {existing : Table Value}
    (hargument : arguments[position]? = some (.object existing)) :
    ∃ merged, slots[position]? = some (.object merged) ∧
      (∀ key ∉ Table.keys fields, ∀ path,
        (Value.object merged).at? (key :: path) = (Value.object existing).at? (key :: path)) ∧
      ∀ key rule path, Table.get? key fields = some rule → rule.Undeclared path →
        (Value.object merged).at? (key :: path) = none := by
  obtain ⟨outcome, htest, hverdict, rfl⟩ := testInPlace_eq_some_iff.mp hrun
  rcases outcome with _ | _ | settled <;> cases hverdict
  obtain ⟨_, found, hfound, rfl⟩ := test_eq_some_iff.mp htest
  have hhere : (Rule.tests answers route.rules arguments)[position]? =
      some ((Rule.shape fields default?).test answers (.object existing)) := by
    rw [Rule.getElem?_tests, hrule, hargument, Option.map_some, Option.getD_some]
  obtain ⟨result, before, middle, hresult, hshape⟩ := hfound.exists_run hhere
  rw [List.getElem?_map] at hresult
  obtain ⟨here, hmatch, rfl⟩ := Option.map_eq_some_iff.mp hresult
  obtain ⟨merged, hmerged, hkept, hdropped⟩ :=
    Rule.at?_settle_of_test (hdistinct _ (List.mem_of_getElem? hrule)) hshape
  refine ⟨merged, ?_, hkept, hdropped⟩
  change (Match.settleAll found arguments)[position]? = _
  rw [Match.getElem?_settleAll, hmatch, hargument, Option.map_some, Option.getD_some, hmerged]

/-- An undeclared field stays beside an object in which only the declared field stays. -/
theorem testInPlace_keeps_color :
    let inner : Rule := .shape [("depth", .scalar "number" (.named "number") none)] none
    let route : Route Unit Unit := ⟨[.shape [("inner", inner)] none],
      fun _ => .done (.ok .undefined)⟩
    let argument : Value := .object [("color", .object [("name", .string "red")]),
      ("inner", .object [("depth", .number .zero), ("note", .string "a")])]
    ∃ slots after merged, (route.testInPlace .exceeded).run [argument]
        (Registry.new .standard ()) = some ((.ok true, slots), after) ∧
      slots[0]? = some merged ∧ merged.at? ["color", "name"] = some (.string "red") ∧
      merged.at? ["inner", "note"] = none := by
  intro inner route argument
  have hrun : ((route.testInPlace .exceeded).run [argument] (Registry.new .standard ())).map
      (fun answer => answer.1.1) = some (.ok true) := by with_unfolding_all rfl
  obtain ⟨⟨⟨_, slots⟩, after⟩, hrun, rfl⟩ := Option.map_eq_some_iff.mp hrun
  have hdistinct : ∀ rule ∈ route.rules, rule.DistinctFields := by
    intro rule hrule
    rcases List.mem_singleton.mp hrule with rfl
    exact (by decide : ["inner"].Nodup)
  have hrule : route.rules[0]? = some (.shape [("inner", inner)] none) := rfl
  obtain ⟨merged, hslot, hkept, hdropped⟩ :=
    testInPlace_keeps_undeclared .exceeded route hdistinct hrun hrule rfl
  refine ⟨slots, after, _, hrun, hslot, ?_, ?_⟩
  · exact hkept "color" (by decide) ["name"]
  · exact hdropped "inner" inner ["note"] rfl (.here (by decide))

/-- A matched call drops a field of a nested object that the nested shape rule does not
declare. -/
theorem testInPlace_drops_note :
    let inner : Rule := .shape [("depth", .scalar "number" (.named "number") none)] none
    let outer : Rule := .shape [("inner", inner)] none
    let route : Route Unit Unit := ⟨[outer], fun _ => .done (.ok .undefined)⟩
    let argument : Value :=
      .object [("inner", .object [("depth", .number .zero), ("note", .string "a")])]
    let settled : Value := .object [("inner", .object [("depth", .number .zero)])]
    (∃ after, (route.testInPlace .exceeded).run [argument] (Registry.new .standard ()) =
      some ((.ok true, [settled]), after)) ∧
      outer.Undeclared ["inner", "note"] ∧
      argument.at? ["inner", "note"] = some (.string "a") ∧
      settled.at? ["inner", "note"] = none := by
  intro inner outer route argument settled
  have hsettled : ((route.testInPlace .exceeded).run [argument]
      (Registry.new .standard ())).map Prod.fst = some (.ok true, [settled]) := by
    with_unfolding_all rfl
  obtain ⟨⟨_, after⟩, hrun, rfl⟩ := Option.map_eq_some_iff.mp hsettled
  exact ⟨⟨after, hrun⟩, .inside rfl (.here (by decide)), rfl, rfl⟩

end Route

end Switchboard
