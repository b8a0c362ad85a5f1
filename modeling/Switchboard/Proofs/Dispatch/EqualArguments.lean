import Switchboard.Proofs.Dispatch.Lockstep
import Switchboard.Proofs.Route.Settled

/-!
Equal arguments are routed alike. A rule finds the same kind of thing in two values that a
congruence relates, or nothing in either, and the slots that it settles are related; so is what
it finds by default, if the congruence relates its defaults to themselves. This goes over to
the rules of a route and to the routes of a table. Equality is a congruence, but NaN does not
equal itself: what is found in equal values agrees in any case, and is equal if no default of
the rule differs from itself.
-/

namespace Switchboard

variable {σ S : Type}

open Registry (Stock)
open Value (Congruence)

namespace Rule

mutual

/-- No shape of the rule declares a field twice, and every default in it is good. -/
def Sound (good : Value → Prop) : Rule → Prop
  | scalar _ _ default? => ∀ default ∈ default?, good default
  | shape fields default? =>
      Table.Distinct fields ∧ SoundFields good fields ∧ ∀ default ∈ default?, good default

def SoundFields (good : Value → Prop) : List (String × Rule) → Prop
  | [] => True
  | (_, rule) :: rest => rule.Sound good ∧ SoundFields good rest

end

mutual

theorem Sound.imp {good good' : Value → Prop} (himp : ∀ default, good default → good' default)
    {rule : Rule} (h : rule.Sound good) : rule.Sound good' := by
  match rule with
  | .scalar _ _ default? =>
      rw [Sound] at h ⊢
      exact fun default hdefault => himp default (h default hdefault)
  | .shape fields default? =>
      rw [Sound] at h ⊢
      obtain ⟨hdistinct, hfields, hdefault⟩ := h
      exact ⟨hdistinct, SoundFields.imp himp hfields,
        fun default hmem => himp default (hdefault default hmem)⟩

theorem SoundFields.imp {good good' : Value → Prop}
    (himp : ∀ default, good default → good' default) {fields : List (String × Rule)}
    (h : SoundFields good fields) : SoundFields good' fields := by
  match fields with
  | [] => trivial
  | (_, rule) :: rest =>
      rw [SoundFields] at h ⊢
      exact ⟨Sound.imp himp h.1, SoundFields.imp himp h.2⟩

end

end Rule

/-- Matches of one kind: related values, or the same declared fields with related entries. -/
inductive Match.Alike (rel : Value → Value → Prop) : Match → Match → Prop
  | value {v w : Value} (h : rel v w) : Alike rel (.value v) (.value w)
  | shape {f g : Table Value} (h : Table.Alike rel f g) (hkeys : f.keys = g.keys) :
      Alike rel (.shape f) (.shape g)

/-- What is found for declared fields: one related pair per field, in the order of the
declaration. -/
structure Rule.FoundAlike (rel : Value → Value → Prop) (fields : List (String × Rule))
    (f g : Table Value) : Prop where
  keys_eq : f.keys = Table.keys fields
  entries : List.Forall₂ (fun x y => x.1 = y.1 ∧ rel x.2 y.2) f g

section

variable {answers : Answers σ} {rel : Value → Value → Prop} (hrel : Congruence rel)

include hrel

theorem Match.Alike.toValue {found found' : Match} (h : Alike rel found found') :
    rel found.toValue found'.toValue := by
  cases h with
  | value h => exact h
  | shape h hkeys => exact hrel.object h

/-- Slots that are settled alike are related. -/
theorem Match.Alike.settle {found found' : Match} (h : Alike rel found found')
    {slot slot' : Value} (hslot : rel slot slot') :
    rel (found.settle slot) (found'.settle slot') := by
  cases h with
  | value h => exact h
  | @shape f g h hkeys =>
      have hsettle (fields : Table Value) (slot : Value) : (Match.shape fields).settle slot =
          .object ((slot.asObject?.map (Table.insertAll fields)).getD fields) := by
        cases slot <;> rfl
      rw [hsettle, hsettle]
      rcases exists_of_optionRel (hrel.asObject? hslot) with
        ⟨hleft, hright⟩ | ⟨existing, existing', hleft, hright, hexisting⟩
      · rw [hleft, hright]
        exact hrel.object h
      · -- the keys of the two objects may stand in different orders before and after
        rw [hleft, hright]
        exact hrel.object (h.insertAll hkeys hexisting)

theorem Match.settleAll_rel {found found' : List Match}
    (h : List.Forall₂ (Match.Alike rel) found found') {arguments arguments' : List Value}
    (harguments : List.Forall₂ rel arguments arguments') :
    List.Forall₂ rel (settleAll found arguments) (settleAll found' arguments') := by
  induction h generalizing arguments arguments' with
  | nil => exact .nil
  | cons hhead _ ih =>
      rw [settleAll, settleAll]
      cases harguments with
      | nil => exact .cons (hhead.settle hrel hrel.undefined) (ih .nil)
      | cons hslot hrest => exact .cons (hhead.settle hrel hslot) (ih hrest)

namespace Rule

theorem scalarMatch_alike (accepted : Bool) {default? : Option Value}
    (hdefault : ∀ default ∈ default?, rel default default) {v w : Value} (h : rel v w) :
    Option.Rel (Match.Alike rel) (scalarMatch accepted default? v)
      (scalarMatch accepted default? w) := by
  rw [scalarMatch, scalarMatch, hrel.isUndefined_eq h]
  split
  · split
    · exact .none
    · exact .some (.value h)
  · split
    · cases hfilter : default?.filter fun default => !default.isUndefined with
      | none => exact .none
      | some default =>
          exact .some (.value (hdefault default (Option.filter_eq_some_iff.mp hfilter).1))
    · exact .none

theorem workingValue_rel {default? : Option Value}
    (hdefault : ∀ default ∈ default?, rel default default) {v w : Value} (h : rel v w) :
    rel (workingValue default? v) (workingValue default? w) := by
  rw [workingValue, workingValue, hrel.isUnset_eq h]
  split
  · -- both runs look into the one default, which need not equal itself
    cases default? with
    | none => exact h
    | some default => exact hdefault default rfl
  · exact h

end Rule

end

section

variable {answers : Answers σ} {rel : Value → Value → Prop} {standing : Registry σ → Prop}

namespace Rule

mutual

theorem test_inStep (hblind : Registry.Blind answers rel standing) (hrel : Congruence rel)
    (rule : Rule) (hsound : rule.Sound fun default => rel default default)
    {v w : Value} (h : rel v w) :
    Attempt.InStep standing (Option.Rel (Match.Alike rel)) (rule.test answers v)
      (rule.test answers w) := by
  match rule with
  | .scalar source tree default? =>
      rw [Sound] at hsound
      rw [test, test]
      refine (Registry.evaluateTree_inStep hblind hrel tree h).bind_eq fun accepted => ?_
      exact Attempt.inStep_pure (scalarMatch_alike hrel accepted hsound h)
  | .shape fields default? =>
      rw [Sound] at hsound
      obtain ⟨hdistinct, hfields, hdefault⟩ := hsound
      rw [test, test]
      rcases exists_of_optionRel (hrel.asObject? (workingValue_rel hrel hdefault h)) with
        ⟨hleft, hright⟩ | ⟨object, object', hleft, hright, hobject⟩
      · rw [hleft, hright]
        exact Attempt.inStep_pure .none
      · rw [hleft, hright]
        refine (testFields_inStep hblind hrel fields hfields hobject.entries).bind
          fun found found' hfound => Attempt.inStep_pure ?_
        cases hfound with
        | none => exact .none
        | @some f g hfound =>
            have hkeys : Table.Distinct f := by
              rw [Table.Distinct, hfound.keys_eq]
              exact hdistinct
            obtain ⟨halike, hsame⟩ := Table.alike_of_forall₂ hkeys hfound.entries
            exact .some (.shape halike hsame)

theorem testFields_inStep (hblind : Registry.Blind answers rel standing) (hrel : Congruence rel)
    (fields : List (String × Rule))
    (hsound : SoundFields (fun default => rel default default) fields)
    {object object' : Table Value}
    (h : ∀ key, Option.Rel rel (Table.get? key object) (Table.get? key object')) :
    Attempt.InStep standing (Option.Rel (FoundAlike rel fields))
      (testFields answers fields object) (testFields answers fields object') := by
  match fields with
  | [] => exact Attempt.inStep_pure (.some ⟨rfl, .nil⟩)
  | (key, rule) :: rest =>
      rw [SoundFields] at hsound
      rw [testFields, testFields]
      have hslot : rel ((Table.get? key object).getD .undefined)
          ((Table.get? key object').getD .undefined) := by
        rcases exists_of_optionRel (h key) with ⟨hleft, hright⟩ | ⟨_, _, hleft, hright, hentry⟩
        · rw [hleft, hright]
          exact hrel.undefined
        · rw [hleft, hright]
          exact hentry
      refine (test_inStep hblind hrel rule hsound.1 hslot).bind fun found found' hfound => ?_
      cases hfound with
      | none => exact Attempt.inStep_pure .none
      | some hfound =>
          refine (testFields_inStep hblind hrel rest hsound.2 h).bind
            fun others others' hothers => Attempt.inStep_pure ?_
          cases hothers with
          | none => exact .none
          | some hothers =>
              refine .some ⟨congrArg (key :: ·) hothers.keys_eq, ?_⟩
              exact .cons ⟨rfl, hfound.toValue hrel⟩ hothers.entries

end

end Rule

variable (hblind : Registry.Blind answers rel standing) (hrel : Congruence rel)

include hblind hrel

/-- Rules that are tested on related arguments, `undefined` standing for missing ones. -/
theorem Rule.testAll_inStep (rules : List Rule)
    (hsound : ∀ rule ∈ rules, rule.Sound fun default => rel default default)
    {arguments arguments' : List Value} (h : List.Forall₂ rel arguments arguments') :
    Attempt.InStep standing (Option.Rel (List.Forall₂ (Match.Alike rel)))
      (testAll answers rules arguments) (testAll answers rules arguments') := by
  induction rules generalizing arguments arguments' with
  | nil => exact Attempt.inStep_pure (.some .nil)
  | cons rule rules ih =>
      obtain ⟨hrule, hrules⟩ := List.forall_mem_cons.mp hsound
      have hhead : rel (arguments.headD .undefined) (arguments'.headD .undefined) := by
        cases h with
        | nil => exact hrel.undefined
        | cons hhead _ => exact hhead
      have htail : List.Forall₂ rel arguments.tail arguments'.tail := by
        cases h with
        | nil => exact .nil
        | cons _ htail => exact htail
      rw [testAll, testAll]
      refine (test_inStep hblind hrel rule hrule hhead).bind fun found found' hfound => ?_
      cases hfound with
      | none => exact Attempt.inStep_pure .none
      | some hfound =>
          refine (ih hrules htail).bind fun others others' hothers => Attempt.inStep_pure ?_
          cases hothers with
          | none => exact .none
          | some hothers => exact .some (.cons hfound hothers)

/-- A route on related arguments: no match, the same fault, or related arguments as settled. -/
theorem Route.test_inStep (route : Route σ S)
    (hsound : ∀ rule ∈ route.rules, rule.Sound fun default => rel default default)
    {arguments arguments' : List Value} (h : List.Forall₂ rel arguments arguments') :
    Attempt.InStep standing (Option.Rel (List.Forall₂ rel)) (route.test answers arguments)
      (route.test answers arguments') := by
  rw [test, test, h.length_eq]
  split
  · exact Attempt.inStep_pure .none
  · refine (Rule.testAll_inStep hblind hrel route.rules hsound h).bind
      fun found found' hfound => Attempt.inStep_pure ?_
    cases hfound with
    | none => exact .none
    | some hfound => exact .some (Match.settleAll_rel hrel hfound h)

/-- The same route is selected for related arguments. -/
theorem Dispatcher.select_inStep (routes : List (Route σ S))
    (hsound : ∀ route ∈ routes, ∀ rule ∈ route.rules,
      rule.Sound fun default => rel default default)
    {arguments arguments' : List Value} (h : List.Forall₂ rel arguments arguments')
    (ordinal : Nat) :
    Attempt.InStep standing
      (Option.Rel fun selected selected' => selected.1 = selected'.1 ∧
        selected.2.1 = selected'.2.1 ∧ List.Forall₂ rel selected.2.2 selected'.2.2)
      (select answers arguments ordinal routes) (select answers arguments' ordinal routes) := by
  induction routes generalizing ordinal with
  | nil => exact Attempt.inStep_pure .none
  | cons route rest ih =>
      obtain ⟨hroute, hrest⟩ := List.forall_mem_cons.mp hsound
      rw [select, select]
      refine (Route.test_inStep hblind hrel route hroute h).bind fun found found' hfound => ?_
      cases hfound with
      | none => exact ih hrest (ordinal + 1)
      | some hfound => exact Attempt.inStep_pure (.some ⟨rfl, rfl, hfound⟩)

omit hblind

theorem Rule.test_lockstep (rule : Rule) (hsound : rule.Sound fun default => rel default default)
    {v w : Value} (h : rel v w) :
    Attempt.Lockstep answers (Option.Rel (Match.Alike rel)) (rule.test answers v)
      (rule.test answers w) :=
  test_inStep (Registry.stock_blind answers hrel) hrel rule hsound h

theorem Route.test_lockstep (route : Route σ S)
    (hsound : ∀ rule ∈ route.rules, rule.Sound fun default => rel default default)
    {arguments arguments' : List Value} (h : List.Forall₂ rel arguments arguments') :
    Attempt.Lockstep answers (Option.Rel (List.Forall₂ rel)) (route.test answers arguments)
      (route.test answers arguments') :=
  test_inStep (Registry.stock_blind answers hrel) hrel route hsound h

theorem Dispatcher.select_lockstep (routes : List (Route σ S))
    (hsound : ∀ route ∈ routes, ∀ rule ∈ route.rules,
      rule.Sound fun default => rel default default)
    {arguments arguments' : List Value} (h : List.Forall₂ rel arguments arguments')
    (ordinal : Nat) :
    Attempt.Lockstep answers
      (Option.Rel fun selected selected' => selected.1 = selected'.1 ∧
        selected.2.1 = selected'.2.1 ∧ List.Forall₂ rel selected.2.2 selected'.2.2)
      (select answers arguments ordinal routes) (select answers arguments' ordinal routes) :=
  select_inStep (Registry.stock_blind answers hrel) hrel routes hsound h ordinal

end

open Registry (evaluate evaluateTree)

/-- In a registry of stock tests whose hook raises, equal values are told apart by no expression,
rule, route or table. An expression has the same outcome on both. A rule, or a route on equal
arguments one by one, refuses both, fails with the same fault, or matches both; then what it
finds, or the arguments as it settles them, agree, and are equal if every default equals itself.
A table selects the same route. -/
theorem equal_values_route_equally (answers : Answers σ) :
    (∀ v w : Value, v.Equals w →
      (∀ source, Attempt.Lockstep answers Eq (evaluate answers source v)
        (evaluate answers source w)) ∧
      (∀ tree, Attempt.Lockstep answers Eq (evaluateTree answers tree v)
        (evaluateTree answers tree w)) ∧
      ∀ rule : Rule,
        (rule.Sound Value.Distinct → Attempt.Lockstep answers
          (Option.Rel fun found found' => found.toValue.Agrees found'.toValue)
          (rule.test answers v) (rule.test answers w)) ∧
        (rule.Sound (fun default => default.Equals default) → Attempt.Lockstep answers
          (Option.Rel fun found found' => found.toValue.equal found'.toValue = true)
          (rule.test answers v) (rule.test answers w))) ∧
    ∀ arguments arguments' : List Value, List.Forall₂ Value.Equals arguments arguments' →
      (∀ route : Route σ S,
        ((∀ rule ∈ route.rules, rule.Sound Value.Distinct) → Attempt.Lockstep answers
          (Option.Rel (List.Forall₂ Value.Agrees))
          (route.test answers arguments) (route.test answers arguments')) ∧
        ((∀ rule ∈ route.rules, rule.Sound fun default => default.Equals default) →
          Attempt.Lockstep answers
            (Option.Rel (List.Forall₂ fun v w => v.equal w = true))
            (route.test answers arguments) (route.test answers arguments'))) ∧
      ∀ table : Dispatcher σ S,
        (∀ route ∈ table.routes, ∀ rule ∈ route.rules, rule.Sound Value.Distinct) →
        Attempt.Lockstep answers
          (Option.Rel fun selected selected' => selected.1 = selected'.1 ∧
            selected.2.1 = selected'.2.1 ∧
              List.Forall₂ Value.Agrees selected.2.2 selected'.2.2)
          (Dispatcher.select answers arguments 0 table.routes)
          (Dispatcher.select answers arguments' 0 table.routes) := by
  have hsame : ∀ default : Value, default.Distinct → default.Agrees default :=
    fun _ => Value.Agrees.same
  refine ⟨fun v w hvw => ⟨?_, ?_, fun rule => ⟨fun hsound => ?_, fun hsound => ?_⟩⟩,
    fun arguments arguments' h => ⟨fun route => ⟨fun hsound => ?_, fun hsound => ?_⟩,
      fun table hsound => ?_⟩⟩
  · exact fun source => Registry.evaluate_lockstep Value.equals_congruence source hvw
  · exact fun tree => Registry.evaluateTree_lockstep Value.equals_congruence tree hvw
  · refine (Rule.test_lockstep Value.agrees_congruence rule (hsound.imp hsame)
      (.equal hvw)).imp fun _ _ => optionRel_imp fun _ _ hfound => ?_
    exact hfound.toValue Value.agrees_congruence
  · refine (Rule.test_lockstep Value.equals_congruence rule hsound hvw).imp
      fun _ _ => optionRel_imp fun _ _ hfound => ?_
    exact (hfound.toValue Value.equals_congruence).2
  · exact Route.test_lockstep Value.agrees_congruence route
      (fun rule hrule => (hsound rule hrule).imp hsame) (h.imp fun _ _ => .equal)
  · refine (Route.test_lockstep Value.equals_congruence route hsound h).imp
      fun _ _ => optionRel_imp fun _ _ hsettled => ?_
    exact hsettled.imp fun _ _ hequals => hequals.2
  · exact Dispatcher.select_lockstep Value.agrees_congruence table.routes
      (fun route hroute rule hrule => (hsound route hroute rule hrule).imp hsame)
      (h.imp fun _ _ => .equal) 0

/-- The order of the keys and the sign of zero make no difference to a shape, whose match holds
the numbers as they are given, and equal. -/
theorem equal_values_route_equally_numeric :
    let rule : Rule := .shape [("x", .scalar "numeric array" (.arrayOf (.named "numeric")) none)]
      (some .null)
    let v : Value := .object [("y", .null), ("x", .array [.number .zero])]
    let w : Value := .object [("x", .array [.number .negativeZero]), ("y", .null)]
    let registry := Registry.new .standard ()
    ∃ found found' after,
      (rule.test .exceeded v).run registry = some (.ok (some found), after) ∧
      (rule.test .exceeded w).run registry = some (.ok (some found'), after) ∧
      found.toValue.equal found'.toValue = true := by
  intro rule v w registry
  have hvw : v.Equals w := by
    refine ⟨?_, by decide +kernel⟩
    simp [v, Value.Distinct, Value.DistinctFields, Value.DistinctItems, Table.Distinct,
      Table.keys]
  have hsound : rule.Sound fun default => default.Equals default := by
    simp [rule, Rule.Sound, Rule.SoundFields, Table.Distinct, Table.keys, Value.Equals,
      Value.Distinct, Value.equal]
  have hmatch : ((rule.test .exceeded v).run registry).map
      (fun answer => answer.1.toOption.join.isSome) = some true := by decide +kernel
  obtain ⟨hvalues, _⟩ := equal_values_route_equally (S := Unit) .exceeded
  obtain ⟨_, _, hrule⟩ := hvalues v w hvw
  obtain ⟨outcome, outcome', after, hleft, hright, hrel, _⟩ :=
    (hrule rule).2 hsound registry (Registry.stock_new .exceeded .standard ())
  rw [hleft] at hmatch
  cases hrel with
  | fault => cases hmatch
  | results hfound =>
      cases hfound with
      | none => cases hmatch
      | some hequal => exact ⟨_, _, after, hleft, hright, hequal⟩

/-- A default that is NaN is found in two absent arguments, and does not equal itself. -/
theorem test_default_nan :
    let rule : Rule := .scalar "number" (.named "number") (some (.number .nan))
    let v : Value := .undefined
    let w : Value := .undefined
    v.equal w = true ∧ ∃ found found' after,
      (rule.test .exceeded v).run (Registry.new .standard ()) = some (.ok (some found), after) ∧
      (rule.test .exceeded w).run (Registry.new .standard ()) = some (.ok (some found'), after) ∧
      found.toValue.equal found'.toValue = false := by
  exact ⟨rfl, .value (.number .nan), .value (.number .nan), _, rfl, rfl, by decide +kernel⟩

end Switchboard
