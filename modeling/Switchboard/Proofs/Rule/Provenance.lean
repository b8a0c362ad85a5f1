import Switchboard.Proofs.Dispatch.EqualArguments
import Switchboard.Proofs.Route.Kept

/-!
Where a match comes from. A shape match has the declared fields and no others, at every depth,
and nothing in it is `undefined`. What a scalar rule has found is the value that it was given,
or its own default for an absent one; and what it was given stands at its path in the argument,
or at the rest of the path in a default that stood in for an unset argument of a shape rule
above it. So a rule reads the declared fields of the objects that it looks into, and nothing
else makes a difference: no other field, not the order of the keys, and not whether an
`undefined` field is there. Inside a value that a scalar rule takes as a whole the order of
the keys stays as it is; where no test looks at it, it makes a difference to that value alone.
-/

namespace Switchboard

variable {σ : Type} {answers : Answers σ} {registry after : Registry σ}

/-- What is missing under a key is missing at every path below. -/
theorem Value.getD_at?_cons (v : Value) (key : String) (path : List String) :
    (v.at? (key :: path)).getD .undefined =
      (((v.field? key).getD .undefined).at? path).getD .undefined := by
  rw [at?]
  cases v.field? key with
  | some entry => rfl
  | none => cases path <;> rfl

namespace Rule

/-- The rule at a path of declared fields. -/
def at? : Rule → List String → Option Rule
  | rule, [] => some rule
  | shape fields _, key :: path => (Table.get? key fields).bind fun field => field.at? path
  | scalar .., _ :: _ => none

/-- The value that the rule at a path of declared fields is tested on, in a test of a value. -/
def given : Rule → Value → List String → Value
  | _, v, [] => v
  | shape fields default?, v, key :: path =>
      match Table.get? key fields with
      | some field => field.given (((workingValue default? v).field? key).getD .undefined) path
      | none => .undefined
  | scalar .., _, _ :: _ => .undefined

/-- What a rule that is tested on a value can find at its own position: the declared fields in
the order of their declaration, or the value itself, or the default for an absent one. -/
def Fills : Rule → Value → Value → Prop
  | shape fields _, _, w => ∃ entries, w = .object entries ∧ Table.keys entries = Table.keys fields
  | scalar _ _ default?, v, w => w = v ∨ (v = .undefined ∧ default? = some w)

/-- A value that stands at a path of the tested value, or at the rest of the path in a default
that stood in for an unset value above. What is missing is `undefined`. -/
def DrawnFrom (rule : Rule) (v : Value) (path : List String) (w : Value) : Prop :=
  w = (v.at? path).getD .undefined ∨
    ∃ before key rest fields default, path = before ++ key :: rest ∧
      rule.at? before = some (.shape fields (some default)) ∧
      (rule.given v before).isUnset = true ∧ w = (default.at? (key :: rest)).getD .undefined

/-! Paths -/

theorem at?_cons (fields : List (String × Rule)) (default? : Option Value) (key : String)
    (path : List String) : (shape fields default?).at? (key :: path) =
      (Table.get? key fields).bind fun field => field.at? path := by
  rw [at?]

theorem given_nil (rule : Rule) (v : Value) : rule.given v [] = v := by
  rw [given]

theorem given_cons {fields : List (String × Rule)} {key : String} {field : Rule}
    (h : Table.get? key fields = some field) (default? : Option Value) (v : Value)
    (path : List String) : (shape fields default?).given v (key :: path) =
      field.given (((workingValue default? v).field? key).getD .undefined) path := by
  rw [given, h]

/-- What a rule inside another one is given is drawn from the value. -/
theorem drawnFrom_given {rule position : Rule} {path : List String}
    (h : rule.at? path = some position) (v : Value) : rule.DrawnFrom v path (rule.given v path) := by
  induction path generalizing rule v with
  | nil => exact Or.inl (given_nil rule v)
  | cons key path ih =>
      cases rule with
      | scalar source tree default? =>
          rw [at?] at h
          cases h
      | shape fields default? =>
          rw [at?_cons] at h
          obtain ⟨field, hfield, hposition⟩ := Option.bind_eq_some_iff.mp h
          rw [given_cons hfield]
          rcases ih hposition (((workingValue default? v).field? key).getD .undefined) with
            hhere | ⟨before, next, rest, fields', default, rfl, hat, hunset, hgiven⟩
          · rw [hhere, ← Value.getD_at?_cons, workingValue]
            split
            · next hunset =>
                cases default? with
                | none => exact Or.inl rfl
                | some default =>
                    refine Or.inr ⟨[], key, path, fields, default, rfl, ?_, ?_, rfl⟩
                    · rw [at?]
                    · rwa [given_nil]
            · exact Or.inl rfl
          · refine Or.inr ⟨key :: before, next, rest, fields', default, rfl, ?_, ?_, hgiven⟩
            · rw [at?_cons, hfield, Option.bind_some, hat]
            · rwa [given_cons hfield]

/-! Matches -/

/-- What a rule finds is not `undefined`, and comes from the value or from the rule. -/
theorem fills_of_test {rule : Rule} {v : Value} {found : Match}
    (h : (rule.test answers v).run registry = some (.ok (some found), after)) :
    found.toValue.isUndefined = false ∧ rule.Fills v found.toValue := by
  cases rule with
  | scalar source tree default? =>
      rw [test] at h
      rcases Attempt.run_bind_eq_some_iff.mp h with ⟨_, _, ⟨⟩⟩ | ⟨accepted, middle, _, hrest⟩
      obtain ⟨heq, _⟩ := Attempt.run_pure_eq_some_iff.mp hrest
      obtain ⟨w, rfl, hdefined, ⟨_, rfl⟩ | ⟨_, hundefined, hdefault⟩⟩ :=
        scalarMatch_eq_some_iff.mp (Except.ok.inj heq).symm
      · exact ⟨hdefined, Or.inl rfl⟩
      · refine ⟨hdefined, Or.inr ⟨?_, hdefault⟩⟩
        cases v <;> first | rfl | cases hundefined
  | shape fields default? =>
      obtain ⟨object, entries, _, hfields, rfl⟩ := exists_of_test_shape h
      exact ⟨rfl, entries, rfl, keys_of_testFields hfields⟩

/-- At the path of a declared field stands what its rule finds in what it is given. -/
theorem exists_test_at {rule : Rule} {v : Value} {found : Match}
    (h : (rule.test answers v).run registry = some (.ok (some found), after))
    {path : List String} {position : Rule} (hposition : rule.at? path = some position) :
    ∃ here before middle, (position.test answers (rule.given v path)).run before =
        some (.ok (some here), middle) ∧ found.toValue.at? path = some here.toValue := by
  induction path generalizing rule v found registry after with
  | nil =>
      rw [at?] at hposition
      cases hposition
      rw [given_nil]
      exact ⟨found, registry, after, h, by rw [Value.at?]⟩
  | cons key path ih =>
      cases rule with
      | scalar source tree default? =>
          rw [at?] at hposition
          cases hposition
      | shape fields default? =>
          rw [at?_cons] at hposition
          obtain ⟨field, hfield, hinner⟩ := Option.bind_eq_some_iff.mp hposition
          obtain ⟨object, entries, hobject, hfields, rfl⟩ := exists_of_test_shape h
          obtain ⟨here, before, middle, hhere, hentry⟩ := get?_of_testFields hfields hfield
          have hgiven : ((workingValue default? v).field? key).getD .undefined =
              (Table.get? key object).getD .undefined := by
            rw [Value.field?, hobject, Option.bind_some]
          rw [given_cons hfield, hgiven]
          obtain ⟨deeper, before, middle, hdeeper, hat⟩ := ih hhere hinner
          refine ⟨deeper, before, middle, hdeeper, ?_⟩
          change (Table.get? key entries).bind _ = _
          rw [hentry, Option.bind_some, hat]

/-! What a rule reads -/

/-- Two values in which a rule reads the same: the same value, or objects, at the place of a
shape rule, in whose declared fields the rules of the fields read the same. A field that is
missing reads as `undefined`. -/
inductive ReadsAlike : Rule → Value → Value → Prop
  | same (rule : Rule) (v : Value) : ReadsAlike rule v v
  | objects {fields : List (String × Rule)} {default? : Option Value} {object object' : Table Value}
      (hfields : ∀ key rule, (key, rule) ∈ fields →
        ReadsAlike rule ((Table.get? key object).getD .undefined)
          ((Table.get? key object').getD .undefined)) :
      ReadsAlike (.shape fields default?) (.object object) (.object object')

/-- The order of the keys does not matter. -/
theorem readsAlike_of_perm (fields : List (String × Rule)) (default? : Option Value)
    {object object' : Table Value} (hdistinct : Table.Distinct object)
    (hperm : object.Perm object') :
    ReadsAlike (.shape fields default?) (.object object) (.object object') := by
  refine .objects fun key rule _ => ?_
  rw [Table.get?_of_perm hdistinct hperm]
  exact .same rule _

/-- A field that is not declared does not matter. -/
theorem readsAlike_insert {fields : List (String × Rule)} {key : String}
    (h : key ∉ Table.keys fields) (default? : Option Value) (object : Table Value)
    (entry : Value) : ReadsAlike (.shape fields default?) (.object object)
      (.object (Table.insert key entry object)) := by
  refine .objects fun declared rule hmem => ?_
  rw [Table.get?_insert_of_ne]
  · exact .same rule _
  · rintro rfl
    exact h (List.mem_map_of_mem hmem)

/-- A field that is `undefined` might as well be missing. -/
theorem readsAlike_insert_undefined (fields : List (String × Rule)) (default? : Option Value)
    {object : Table Value} {key : String} (h : Table.get? key object = none) :
    ReadsAlike (.shape fields default?) (.object object)
      (.object (Table.insert key .undefined object)) := by
  refine .objects fun declared rule _ => ?_
  rw [Table.get?_insert]
  split
  · next heq =>
      subst heq
      rw [h]
      exact .same rule _
  · exact .same rule _

theorem testFields_congr {fields : List (String × Rule)} {object object' : Table Value}
    (h : ∀ key rule, (key, rule) ∈ fields →
      test answers rule ((Table.get? key object).getD .undefined) =
        test answers rule ((Table.get? key object').getD .undefined)) :
    testFields answers fields object = testFields answers fields object' := by
  induction fields with
  | nil => rw [testFields, testFields]
  | cons field rest ih =>
      obtain ⟨key, rule⟩ := field
      rw [testFields, testFields, h key rule List.mem_cons_self,
        ih fun key rule hmem => h key rule (List.mem_cons_of_mem _ hmem)]

/-- A rule goes through the same test on values in which it reads the same. -/
theorem test_of_readsAlike (answers : Answers σ) {rule : Rule} {v w : Value}
    (h : rule.ReadsAlike v w) : rule.test answers v = rule.test answers w := by
  induction h with
  | same rule v => rfl
  | @objects fields default? object object' hfields ih =>
      rw [test_object, test_object, testFields_congr ih]

/-- A match has something at the path of each declared field, and never `undefined`. Where a
shape stands it has the declared fields in their order; where a scalar rule stands, what the
rule was given, or its default for an absent value. What a rule is given is drawn from the
tested value. And a test depends on nothing else: it is the same on values in which the rule
reads the same. And where no test tells values apart that differ in the order of keys, not even
the order of the keys inside what a scalar rule takes makes a difference, but for that order. -/
theorem test_reads_declared (answers : Answers σ) (rule : Rule) :
    (∀ v registry found after,
      (rule.test answers v).run registry = some (.ok (some found), after) →
      ∀ path position, rule.at? path = some position →
        rule.DrawnFrom v path (rule.given v path) ∧
        ∃ w, found.toValue.at? path = some w ∧ w.isUndefined = false ∧
          position.Fills (rule.given v path) w) ∧
    (∀ v w, rule.ReadsAlike v w → rule.test answers v = rule.test answers w) ∧
    (∀ standing, Registry.Blind answers Value.Reordered standing →
      rule.Sound Value.Distinct → ∀ v u w, rule.ReadsAlike v u → u.Reordered w →
        Attempt.InStep standing
          (Option.Rel fun found found' => found.toValue.Reordered found'.toValue)
          (rule.test answers v) (rule.test answers w)) := by
  refine ⟨fun v registry found after h path position hposition => ⟨?_, ?_⟩,
    fun v w => test_of_readsAlike answers, fun standing hblind hsound v u w hreads hvw => ?_⟩
  · exact drawnFrom_given hposition v
  · obtain ⟨here, _, _, hhere, hat⟩ := exists_test_at h hposition
    exact ⟨here.toValue, hat, fills_of_test hhere⟩
  · rw [test_of_readsAlike answers hreads]
    have hdefaults := hsound.imp fun _ => Value.Reordered.same
    refine (test_inStep hblind Value.reordered_congruence rule hdefaults hvw).imp
      fun _ _ => optionRel_imp fun _ _ hfound => ?_
    exact hfound.toValue Value.reordered_congruence

/-- A default inside a shape and a default for a shape, found in objects that differ in a field
that is not declared, in a field that is absent, and in the order of the keys; and a table of
sizes, taken as a whole by a test of the user, that is found with its keys as they stand. -/
theorem test_reads_declared_port :
    let inner : Rule := .shape [("number", .scalar "number" (.named "number") none)]
      (some (.object [("note", .null), ("number", .number .zero)]))
    let rule : Rule := .shape [("host", .scalar "string" (.named "string") (some (.string "a"))),
      ("port", inner), ("sizes", .scalar "sizes" (.named "sizes") none)] none
    let x : String × Value := ("x", .number .nan)
    let y : String × Value := ("y", .null)
    let v : Value := .object [("sizes", .object [x, y]), ("color", .string "red"), ("port", .null)]
    let u : Value := .object [("port", .null), ("host", .undefined), ("sizes", .object [x, y])]
    let w : Value := .object [("port", .null), ("host", .undefined), ("sizes", .object [y, x])]
    let registry := (Registry.new .standard ()).makeBinding "sizes"
      (.test (.ofCondition fun v => v.asObject?.isSome))
    ∃ found found' after, (rule.test .exceeded v).run registry = some (.ok (some found), after) ∧
      found.toValue.at? ["host"] = some (.string "a") ∧
      found.toValue.at? ["port", "number"] = some (.number .zero) ∧
      (rule.test .exceeded u).run registry = some (.ok (some found), after) ∧
      (rule.test .exceeded w).run registry = some (.ok (some found'), after) ∧
      found.toValue.Reordered found'.toValue := by
  intro inner rule x y v u w registry
  have hmatched : ((rule.test .exceeded v).run registry).map
      (fun answer => answer.1.toOption.join.isSome) = some true := by with_unfolding_all rfl
  obtain ⟨⟨outcome, after⟩, hrun, hsome⟩ := Option.map_eq_some_iff.mp hmatched
  rcases outcome with _ | _ | found <;> cases hsome
  obtain ⟨hmatch, hreads, hinStep⟩ := test_reads_declared .exceeded rule
  obtain ⟨_, host, hhost, hdefined, hfills⟩ := hmatch v registry found after hrun ["host"] _ rfl
  obtain ⟨_, number, hnumber, _, hfills'⟩ :=
    hmatch v registry found after hrun ["port", "number"] _ rfl
  have halike : rule.ReadsAlike v u := by
    refine .objects fun key field hmem => ?_
    simp only [List.mem_cons, List.not_mem_nil, or_false, Prod.mk.injEq] at hmem
    rcases hmem with ⟨rfl, rfl⟩ | ⟨rfl, rfl⟩ | ⟨rfl, rfl⟩ <;> exact .same _ _
  have hsound : rule.Sound Value.Distinct := by
    simp [rule, inner, Sound, SoundFields, Table.Distinct, Table.keys, Value.Distinct,
      Value.DistinctFields]
  have hsizes : (Value.object [x, y]).Reordered (.object [y, x]) := by
    refine Value.reordered_of_perm ?_ (.swap y x [])
    simp [x, y, Value.Distinct, Value.DistinctFields, Table.Distinct, Table.keys]
  have hreordered : u.Reordered w := by
    refine Value.reordered_congruence.object (Table.alike_of_forall₂ ?_ ?_).1
    · simp [Table.Distinct, Table.keys]
    · exact .cons ⟨rfl, .same trivial⟩ (.cons ⟨rfl, .same trivial⟩ (.cons ⟨rfl, hsizes⟩ .nil))
  have htests : Registry.PureTests registry := by
    refine (Registry.pureTests_new .standard ()).makeBinding "sizes" ?_
    rintro body ⟨⟩ v
    exact ⟨_, rfl⟩
  have hblind : Registry.Blind .exceeded Value.Reordered registry.Framed := by
    refine Registry.framed_blind .exceeded htests (fun _ => trivial) ?_
    intro name test hbinding v w hvw
    rw [Registry.bindings_makeBinding, Table.get?_insert] at hbinding
    split at hbinding
    · cases hbinding
      cases hvw <;> rfl
    · have hstock := Registry.stock_new .exceeded .standard ()
      exact hstock.holds_eq hbinding Value.reordered_congruence hvw
  obtain ⟨outcome, outcome', _, hleft, hright, hrel, _⟩ :=
    hinStep _ hblind hsound v u w halike hreordered registry (.refl registry)
  rw [hrun] at hleft
  cases hleft
  cases hrel with
  | results hrel =>
      cases hrel with
      | some hfound =>
          refine ⟨found, _, after, hrun, ?_, ?_, ?_, hright, hfound⟩
          · rcases hfills with rfl | ⟨_, hdefault⟩
            · cases hdefined
            · cases hdefault
              exact hhost
          · rcases hfills' with rfl | ⟨_, hdefault⟩
            · exact hnumber
            · cases hdefault
          · rw [← hreads v u halike, hrun]

end Rule

end Switchboard
