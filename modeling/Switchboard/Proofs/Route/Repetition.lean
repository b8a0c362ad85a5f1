import Switchboard.Proofs.Dispatch.EqualArguments
import Switchboard.Proofs.Dispatch.Standing
import Switchboard.Proofs.Registry.Cycles
import Switchboard.Proofs.Registry.Lookups
import Switchboard.Proofs.Route.Rewriting

/-!
Rewriting twice. A match leaves in a slot what it has found, and a rule that has found something
finds it there again: a value that it has accepted, a default that its own expression accepts,
and the fields of a shape among the fields of the object that they were written over. So a route
matches the arguments that it has rewritten, and leaves them as they are, as long as the
bindings stay and a fault comes to the same each time.
-/

namespace Switchboard

variable {σ S α β : Type}

open Registry (GrouplessNames PureTests ReadsLike Steps)

/-! Readings -/

namespace Registry

/-- Names are never lost, so a registry that has no new name has had none in between, and no
text has come to be read in another way. -/
theorem Steps.reading_eq {registry later : Registry σ} (h : Steps registry later)
    (hnames : GrouplessNames registry)
    (hsame : ∀ name, later.contains name = true → registry.contains name = true)
    (source : String) : later.reading source = registry.reading source := by
  induction h with
  | refl => rfl
  | @tail middle later hfirst hlast ih =>
      have hmiddle : ∀ name, middle.contains name = true → registry.contains name = true :=
        fun name hname => hsame name (Steps.contains (.single hlast) hname)
      have hgroupless : GrouplessNames middle := fun name hname => hnames name (hmiddle name hname)
      rw [← ih hmiddle]
      cases hlast with
      | compile text => exact reading_compile hgroupless text source
      | bind checked overriding name binding h =>
          obtain ⟨_, _, hchecked⟩ := of_bindFault?_eq_none h
          have hcontains := contains_congr (bindings_of_bindFault?_eq_none h)
          have hname : checked.contains name = true := by
            rw [hcontains]
            apply Steps.contains hfirst
            exact hsame name ((contains_makeBinding checked name binding name).mpr (Or.inl rfl))
          rw [reading_makeBinding (Or.inl hname)]
          obtain ⟨_, _, rfl⟩ | ⟨text, _, rfl, _⟩ := hchecked
          · rfl
          · exact reading_compile hgroupless text source
      | _ => exact reading_congr rfl rfl source

/-- A registry that has its bindings and its hook back reads as it did. -/
theorem ReadsLike.steps {base registry later : Registry σ} (hlike : base.ReadsLike registry)
    (hnames : GrouplessNames base) (h : Steps registry later)
    (hbindings : later.bindings = base.bindings) (hhook : later.hook = base.hook) :
    base.ReadsLike later where
  options := h.options_eq.trans hlike.options
  bindings := hbindings
  hook := hhook
  reading source := by
    have hcontains := contains_congr hlike.bindings
    have hgroupless : GrouplessNames registry := by rwa [GrouplessNames, hcontains]
    rw [h.reading_eq hgroupless (fun name hname => ?_), hlike.reading]
    rwa [hcontains, ← contains_congr hbindings]

end Registry

/-! Slots -/

namespace Table

/-- Writing an entry that is there changes nothing. -/
theorem insert_of_get? {key : String} {entry : α} {table : Table α}
    (h : get? key table = some entry) : insert key entry table = table := by
  induction table with
  | nil => cases h
  | cons head rest ih =>
      obtain ⟨k, old⟩ := head
      rw [get?] at h
      rw [insert]
      split
      · next heq =>
          rw [if_pos heq] at h
          cases h
          rw [heq]
      · next hne =>
          rw [if_neg hne] at h
          rw [ih h]

theorem insertAll_of_get? {entries table : Table α}
    (h : ∀ field ∈ entries, get? field.1 table = some field.2) :
    insertAll entries table = table := by
  induction entries with
  | nil => rfl
  | cons field rest ih =>
      rw [List.forall_mem_cons] at h
      change insertAll rest (insert field.1 field.2 table) = table
      rw [insert_of_get? h.1, ih h.2]

end Table

namespace Match

/-- What has been found stands in a slot: the value, or its fields among those of an object. -/
inductive StandsIn : Match → Value → Prop
  | value (v : Value) : StandsIn (.value v) v
  | fields {found table : Table Value}
      (h : ∀ field ∈ found, Table.get? field.1 table = some field.2) :
      StandsIn (.shape found) (.object table)

/-- No field is found twice. -/
def Distinct : Match → Prop
  | value _ => True
  | shape found => Table.Distinct found

theorem standsIn_settle {found : Match} (h : found.Distinct) (slot : Value) :
    found.StandsIn (found.settle slot) := by
  cases found with
  | value v => exact .value v
  | shape found =>
      have hfound : ∀ field ∈ found, Table.get? field.1 found = some field.2 :=
        fun field hfield => Table.get?_of_mem h hfield
      cases slot with
      | object existing =>
          refine .fields fun field hfield => ?_
          rw [Table.get?_insertAll h, hfound field hfield, Option.some_or]
      | _ => exact .fields hfound

theorem standsIn_toValue {found : Match} (h : found.Distinct) : found.StandsIn found.toValue := by
  have hsettle : found.settle .undefined = found.toValue := by cases found <;> rfl
  rw [← hsettle]
  exact standsIn_settle h .undefined

/-- A slot in which a match stands is settled. -/
theorem StandsIn.settle {found : Match} {slot : Value} (h : found.StandsIn slot) :
    found.settle slot = slot := by
  cases h with
  | value v => rfl
  | fields h => exact congrArg Value.object (Table.insertAll_of_get? h)

theorem settleAll_of_standsIn {found : List Match} {slots : List Value}
    (h : List.Forall₂ StandsIn found slots) : settleAll found slots = slots := by
  induction h with
  | nil => rfl
  | cons hhere _ ih => rw [settleAll, List.headD_cons, List.tail_cons, hhere.settle, ih]

theorem standsIn_settleAll {found : List Match} (h : ∀ here ∈ found, here.Distinct)
    (arguments : List Value) : List.Forall₂ StandsIn found (settleAll found arguments) := by
  induction found generalizing arguments with
  | nil => exact .nil
  | cons here rest ih =>
      rw [List.forall_mem_cons] at h
      exact .cons (standsIn_settle h.1 _) (ih h.2 _)

end Match

/-! Tests -/

/-- What follows a result is all that matters. -/
theorem Attempt.Computes.bind_ok {base : Registry σ} {attempt : Attempt σ α}
    {next : α → Attempt σ β} {result : α} {outcome : Except Fault β}
    (h : attempt.Computes base (.ok result)) (hnext : (next result).Computes base outcome) :
    (attempt >>= next).Computes base outcome := by
  intro registry hlike
  obtain ⟨after, hrun, hafter⟩ := h registry hlike
  rw [Attempt.run_bind_ok hrun]
  exact hnext after (hafter result rfl)

namespace Rule

mutual

/-- The default of each scalar rule, at any depth, is a value that the expression of the rule
accepts. -/
def DefaultsFit (answers : Answers σ) (registry : Registry σ) : Rule → Prop
  | scalar _ tree default? => ∀ default ∈ default?, default.isUndefined = false ∧
      ∃ after, (Registry.evaluateTree answers tree default).run registry = some (.ok true, after)
  | shape fields _ => DefaultsFitFields answers registry fields

def DefaultsFitFields (answers : Answers σ) (registry : Registry σ) :
    List (String × Rule) → Prop
  | [] => True
  | (_, rule) :: rest =>
      rule.DefaultsFit answers registry ∧ DefaultsFitFields answers registry rest

end

variable {answers : Answers σ} {base registry after : Registry σ} {good : Value → Prop}

/-- A rule without repeated fields finds no field twice. -/
theorem distinct_of_test {rule : Rule} (hsound : rule.Sound good) {v : Value} {found : Match}
    (h : (rule.test answers v).run registry = some (.ok (some found), after)) :
    found.Distinct := by
  cases rule with
  | scalar source tree default? =>
      rw [test] at h
      rcases Attempt.run_bind_eq_some_iff.mp h with ⟨_, _, ⟨⟩⟩ | ⟨accepted, middle, _, hrest⟩
      obtain ⟨heq, _⟩ := Attempt.run_pure_eq_some_iff.mp hrest
      obtain ⟨w, rfl, _⟩ := scalarMatch_eq_some_iff.mp (Except.ok.inj heq).symm
      trivial
  | shape fields default? =>
      obtain ⟨_, entries, _, hfields, rfl⟩ := exists_of_test_shape h
      rw [Sound] at hsound
      change Table.Distinct entries
      rw [Table.Distinct, keys_of_testFields hfields]
      exact hsound.1

section

variable (hsteady : base.Steady answers) (htests : PureTests base) (hnames : GrouplessNames base)

include hsteady htests hnames

/-- An expression comes to the same on all registries that read alike. -/
theorem evaluateTree_computes_of_run (hlike : base.ReadsLike registry) {tree : Expr} {v : Value}
    {outcome : Except Fault Bool}
    (h : (Registry.evaluateTree answers tree v).run registry = some (outcome, after)) :
    (Registry.evaluateTree answers tree v).Computes base outcome :=
  ((hsteady.compositional htests hnames).evaluateTree tree v).computes hlike h

/-- A value that a scalar rule has found is accepted by its expression. -/
theorem scalar_again {source : String} {tree : Expr} {default? : Option Value}
    (hfit : (scalar source tree default?).DefaultsFit answers base)
    (hlike : base.ReadsLike registry) {v : Value} {found : Match}
    (h : (test answers (.scalar source tree default?) v).run registry =
      some (.ok (some found), after)) {slot : Value} (hslot : found.StandsIn slot) :
    (test answers (.scalar source tree default?) slot).Computes base (.ok (some found)) := by
  rw [test] at h
  rcases Attempt.run_bind_eq_some_iff.mp h with ⟨_, _, ⟨⟩⟩ | ⟨accepted, middle, heval, hrest⟩
  obtain ⟨heq, _⟩ := Attempt.run_pure_eq_some_iff.mp hrest
  obtain ⟨w, rfl, hdefined, hcase⟩ := scalarMatch_eq_some_iff.mp (Except.ok.inj heq).symm
  cases hslot
  have haccepted : (Registry.evaluateTree answers tree slot).Computes base (.ok true) := by
    rcases hcase with ⟨rfl, rfl⟩ | ⟨_, _, hdefault⟩
    · exact evaluateTree_computes_of_run hsteady htests hnames hlike heval
    · rw [DefaultsFit] at hfit
      obtain ⟨_, last, hrun⟩ := hfit slot hdefault
      exact evaluateTree_computes_of_run hsteady htests hnames (.refl base) hrun
  have hagain : scalarMatch true default? slot = some (.value slot) :=
    scalarMatch_eq_some_iff.mpr ⟨slot, rfl, hdefined, Or.inl ⟨rfl, rfl⟩⟩
  rw [test, ← hagain]
  exact haccepted.bind_ok (Attempt.computes_pure base _)

mutual

/-- A rule finds again what it has found, where that stands. -/
theorem test_again (rule : Rule) (hsound : rule.Sound good)
    (hfit : rule.DefaultsFit answers base) {v : Value} {found : Match}
    {registry after : Registry σ} (hlike : base.ReadsLike registry)
    (h : (rule.test answers v).run registry = some (.ok (some found), after)) {slot : Value}
    (hslot : found.StandsIn slot) : (rule.test answers slot).Computes base (.ok (some found)) := by
  match rule with
  | .scalar source tree default? => exact scalar_again hsteady htests hnames hfit hlike h hslot
  | .shape fields default? =>
      obtain ⟨object, entries, _, hfields, rfl⟩ := exists_of_test_shape h
      rw [Sound] at hsound
      rw [DefaultsFit] at hfit
      cases hslot with
      | @fields _ table hentries =>
          rw [test_object]
          have hagain := testFields_again fields hsound.2.1 hfit hlike hfields hentries
          exact hagain.bind_ok (Attempt.computes_pure base _)

/-- The rules of fields find again what they have found, in any object that has these
entries. -/
theorem testFields_again (fields : List (String × Rule)) (hsound : SoundFields good fields)
    (hfit : DefaultsFitFields answers base fields) {object entries : Table Value}
    {registry after : Registry σ} (hlike : base.ReadsLike registry)
    (h : (testFields answers fields object).run registry = some (.ok (some entries), after))
    {table : Table Value} (htable : ∀ field ∈ entries, Table.get? field.1 table = some field.2) :
    (testFields answers fields table).Computes base (.ok (some entries)) := by
  match fields with
  | [] =>
      rw [testFields] at h
      cases (Attempt.run_pure_eq_some_iff.mp h).1
      rw [testFields]
      exact Attempt.computes_pure base (some [])
  | (key, rule) :: rest =>
      rw [SoundFields] at hsound
      rw [DefaultsFitFields] at hfit
      rw [testFields] at h
      rcases Attempt.run_bind_eq_some_iff.mp h with ⟨_, _, ⟨⟩⟩ | ⟨result, middle, hfirst, hrest⟩
      cases result with
      | none => cases (Attempt.run_pure_eq_some_iff.mp hrest).1
      | some here =>
          rcases Attempt.run_bind_eq_some_iff.mp hrest with
            ⟨_, _, ⟨⟩⟩ | ⟨others, last, hothers, hlast⟩
          obtain ⟨heq, _⟩ := Attempt.run_pure_eq_some_iff.mp hlast
          cases others with
          | none => cases heq
          | some others =>
              cases heq
              obtain ⟨hkey, hentries⟩ := List.forall_mem_cons.mp htable
              have hmiddle : base.ReadsLike middle :=
                ((hsteady.compositional htests hnames).test rule _).readsLike hlike hfirst
              have hhere := test_again rule hsound.1 hfit.1 hlike hfirst
                (Match.standsIn_toValue (distinct_of_test hsound.1 hfirst))
              have hagain := testFields_again rest hsound.2 hfit.2 hmiddle hothers hentries
              rw [testFields, hkey, Option.getD_some]
              exact hhere.bind_ok (hagain.bind_ok (Attempt.computes_pure base _))

end

/-- The rules of a route find again what they have found, where that stands. -/
theorem testAll_again {rules : List Rule} (hsound : ∀ rule ∈ rules, rule.Sound good)
    (hfit : ∀ rule ∈ rules, rule.DefaultsFit answers base) {arguments : List Value}
    {found : List Match} (hlike : base.ReadsLike registry)
    (h : (testAll answers rules arguments).run registry = some (.ok (some found), after))
    {slots : List Value} (hslots : List.Forall₂ Match.StandsIn found slots) :
    (testAll answers rules slots).Computes base (.ok (some found)) := by
  induction rules generalizing arguments found slots registry after with
  | nil =>
      cases (testAll_nil_eq_some_iff.mp h).1
      rw [testAll]
      exact Attempt.computes_pure base (some [])
  | cons rule rules ih =>
      obtain ⟨hrule, hrules⟩ := List.forall_mem_cons.mp hsound
      obtain ⟨hruleFit, hrulesFit⟩ := List.forall_mem_cons.mp hfit
      rcases testAll_cons_eq_some_iff.mp h with
        ⟨_, _, ⟨⟩⟩ | ⟨_, ⟨⟩⟩ | ⟨here, middle, others, hfirst, hothers, houtcome⟩
      rcases others with _ | _ | others <;> cases houtcome
      cases hslots with
      | @cons _ slot _ rest hslot hrest =>
          have hmiddle : base.ReadsLike middle :=
            ((hsteady.compositional htests hnames).test rule _).readsLike hlike hfirst
          have hhere := test_again hsteady htests hnames rule hrule hruleFit hlike hfirst hslot
          have hagain := ih hrules hrulesFit hmiddle hothers hrest
          rw [testAll, List.headD_cons, List.tail_cons]
          exact hhere.bind_ok (hagain.bind_ok (Attempt.computes_pure base _))

end

/-- What rules without repeated fields find has no repeated fields. -/
theorem distinct_of_testAll {rules : List Rule} (hsound : ∀ rule ∈ rules, rule.Sound good)
    {arguments : List Value} {found : List Match}
    (h : (testAll answers rules arguments).run registry = some (.ok (some found), after)) :
    ∀ here ∈ found, here.Distinct := by
  induction rules generalizing arguments found registry with
  | nil =>
      cases (testAll_nil_eq_some_iff.mp h).1
      exact List.forall_mem_nil _
  | cons rule rules ih =>
      obtain ⟨hrule, hrules⟩ := List.forall_mem_cons.mp hsound
      rcases testAll_cons_eq_some_iff.mp h with
        ⟨_, _, ⟨⟩⟩ | ⟨_, ⟨⟩⟩ | ⟨here, middle, others, hfirst, hothers, houtcome⟩
      rcases others with _ | _ | others <;> cases houtcome
      exact List.forall_mem_cons.mpr ⟨distinct_of_test hrule hfirst, ih hrules hothers⟩

end Rule

namespace Route

variable {answers : Answers σ} {base registry after : Registry σ}

/-- A route that has settled arguments settles them in the same way again. -/
theorem test_again (hsteady : base.Steady answers) (htests : PureTests base)
    (hnames : GrouplessNames base) {good : Value → Prop} {route : Route σ S}
    (hsound : ∀ rule ∈ route.rules, rule.Sound good)
    (hfit : ∀ rule ∈ route.rules, rule.DefaultsFit answers base)
    (hlike : base.ReadsLike registry) {arguments slots : List Value}
    (h : (route.test answers arguments).run registry = some (.ok (some slots), after)) :
    (route.test answers slots).Computes base (.ok (some slots)) := by
  obtain ⟨_, found, hinturn, rfl⟩ := test_eq_some_iff.mp h
  have hfound := Rule.testAll_eq_some_iff.mpr hinturn
  have hstands := Match.standsIn_settleAll (Rule.distinct_of_testAll hsound hfound) arguments
  have hagain := Rule.testAll_again hsteady htests hnames hsound hfit hlike hfound hstands
  have hlength : ¬ route.rules.length < (Match.settleAll found arguments).length := by
    rw [Match.length_settleAll, Rule.length_of_testAll hfound]
    exact Nat.lt_irrefl _
  have hsettled := Match.settleAll_of_standsIn hstands
  rw [test, if_neg hlength]
  refine hagain.bind_ok ?_
  rw [Option.map_some, hsettled]
  exact Attempt.computes_pure base _

/-- A route that matches in place matches the arguments as it has rewritten them, at any later
time, and leaves them as they are. The rules have no repeated fields, and each default of a
scalar rule in them is a value that the rule itself accepts; tests are pure, and no name holds
a group. In the end the bindings and the hook are those of the start, and this hook gives a
fault the same answer each time and changes nothing that an evaluation reads. -/
theorem testInPlace_again (answers : Answers σ) (route : Route σ S)
    {registry after later : Registry σ} {arguments slots : List Value}
    (hsound : ∀ rule ∈ route.rules, rule.Sound fun _ => True)
    (hfit : ∀ rule ∈ route.rules, rule.DefaultsFit answers registry)
    (htests : PureTests registry) (hnames : GrouplessNames registry)
    (hsteady : registry.Steady answers)
    (hrun : (route.testInPlace answers).run arguments registry = some ((.ok true, slots), after))
    (hlater : Steps after later) (hbindings : later.bindings = registry.bindings)
    (hhook : later.hook = registry.hook) :
    ∃ last, (route.testInPlace answers).run slots later = some ((.ok true, slots), last) := by
  obtain ⟨outcome, htest, hverdict, rfl⟩ := testInPlace_eq_some_iff.mp hrun
  rcases outcome with _ | _ | settled <;> cases hverdict
  have hafter : registry.ReadsLike after :=
    ((hsteady.compositional htests hnames).routeTest route arguments).readsLike (.refl registry)
      htest
  have hagain := test_again hsteady htests hnames hsound hfit (.refl registry) htest
  obtain ⟨last, hlast, _⟩ :=
    hagain later (hafter.steps hnames hlater hbindings hhook)
  exact ⟨last, testInPlace_eq_some_iff.mpr ⟨_, hlast, rfl, rfl⟩⟩

/-- A default in a shape, the default of a shape, and a field that is not declared: the second
test finds them as the first has left them. -/
theorem testInPlace_again_box :
    let number : Rule := .scalar "number" (.named "number") (some (.number .zero))
    let string : Rule := .scalar "string" (.named "string") none
    let route : Route Unit Unit := ⟨[.shape [("size", number), ("name", string)] none,
      .shape [("unit", string)] (some (.object [("note", .null), ("unit", .string "mm")]))],
      fun _ => .done (.ok .undefined)⟩
    let arguments : List Value := [.object [("color", .string "red"), ("name", .string "box")]]
    let slots : List Value := [.object [("color", .string "red"), ("name", .string "box"),
      ("size", .number .zero)], .object [("unit", .string "mm")]]
    ∃ after last, (route.testInPlace .exceeded).run arguments (Registry.new .standard ()) =
        some ((.ok true, slots), after) ∧
      (route.testInPlace .exceeded).run slots (after.compile "string or number").2 =
        some ((.ok true, slots), last) := by
  intro number string route arguments slots
  have hsettled : ((route.testInPlace .exceeded).run arguments (Registry.new .standard ())).map
      Prod.fst = some (.ok true, slots) := by with_unfolding_all rfl
  obtain ⟨⟨_, after⟩, hrun, rfl⟩ := Option.map_eq_some_iff.mp hsettled
  have hsound : ∀ rule ∈ route.rules, rule.Sound fun _ => True := by
    simp [route, number, string, Rule.Sound, Rule.SoundFields, Table.Distinct, Table.keys]
  have hfit : ∀ rule ∈ route.rules,
      rule.DefaultsFit .exceeded (Registry.new .standard ()) := by
    have hnumber : number.DefaultsFit .exceeded (Registry.new .standard ()) := by
      rintro _ ⟨⟩
      exact ⟨rfl, _, by with_unfolding_all rfl⟩
    simp [route, string, Rule.DefaultsFit, Rule.DefaultsFitFields, hnumber]
  have hafter : after.bindings = (Registry.new .standard ()).bindings ∧
      after.hook = (Registry.new .standard ()).hook := by
    have hframe : ((route.testInPlace .exceeded).run arguments (Registry.new .standard ())).map
        (fun answer => (answer.2.bindings, answer.2.hook)) =
          some ((Registry.new .standard ()).bindings, (Registry.new .standard ()).hook) := by
      with_unfolding_all rfl
    rw [hrun] at hframe
    exact Prod.mk.inj (Option.some.inj hframe)
  obtain ⟨last, hlast⟩ := testInPlace_again .exceeded route hsound hfit
    (Registry.pureTests_new _ _) (Registry.grouplessNames_new _ _)
    (Registry.steady_of_raises (Registry.raises_raising .exceeded)) hrun
    (.single (.compile after "string or number")) hafter.1 hafter.2
  exact ⟨after, last, hrun, hlast⟩

/-- A rule that matches because the hook recovers does not match under another hook. And where
a name holds a group, the second test can read an alias in another way than the first: the text
` (a)` of the one alias, read on the way, makes `(a)` in the other one mean `a`. -/
theorem testInPlace_refuses_settled :
    let verdicts (rules : List Rule) (change : Registry Unit → Registry Unit)
        (arguments : List Value) (registry : Registry Unit) :=
      let run := ((Route.mk rules fun _ => .done (.ok .undefined) : Route Unit Unit).testInPlace
        .exceeded).run
      (run arguments registry).bind fun ((first, slots), after) =>
        (run slots (change after)).map fun ((second, _), _) => (first, second)
    let gadget : Rule := .scalar "gadget or string" (.or (.named "gadget") (.named "string")) none
    let recovering : Registry Unit := { Registry.new .standard () with
      hook := fun _ => .done .recover }
    let first : Rule := .scalar "not undefined and y"
      (.and (.not (.named "undefined")) (.named "y")) (some (.string "s"))
    let second : Rule := .scalar "x" (.named "x") none
    let ofKind (kind : Kind) : Binding Unit := .test (.kinds (.single kind))
    let grouped := ((Registry.new .standard ()).added "(a)" (ofKind .string)).added "a"
      (ofKind .number)
    let registry := ((grouped.added "y" (.alias "(a)")).added "x" (.alias " (a)")).added "b c"
      (ofKind .null)
    (PureTests recovering ∧ gadget.DefaultsFit .exceeded recovering ∧
      verdicts [gadget] (fun after => { after with hook := Registry.raising }) [.string "s"]
        recovering = some (.ok true, .error (.unknownType "gadget"))) ∧
    Registry.ReachableFrom .standard () registry ∧ PureTests registry ∧
      (∀ rule ∈ [first, second], rule.DefaultsFit .exceeded registry) ∧
      verdicts [first, second] id [.undefined, .number .zero] registry =
        some (.ok true, .ok false) := by
  intro verdicts gadget recovering first second ofKind grouped registry
  have hadded {registry : Registry Unit} {name : String} {binding : Binding Unit}
      (h : Registry.ReachableFrom .standard () registry ∧ PureTests registry)
      (hcheck : (registry.bindFault? false name binding).1 = none)
      (hbinding : ∀ body, binding ≠ .test (.custom body)) :
      Registry.ReachableFrom .standard () (registry.added name binding) ∧
        PureTests (registry.added name binding) := by
    have hvalid : registry.bindFault? false name binding =
        (none, (registry.bindFault? false name binding).2) := Prod.ext hcheck rfl
    refine ⟨h.1.tail (.define registry _ 0 name binding (.ok ())
      (Registry.bind_run_of_valid _ hvalid)), ?_⟩
    exact (h.2.framed (Registry.framed_bindFault? hvalid).1).makeBinding name
      fun body heq => absurd heq (hbinding body)
  have hgrouped : Registry.ReachableFrom .standard () grouped ∧ PureTests grouped :=
    hadded (hadded ⟨.refl, Registry.pureTests_new _ _⟩ (by decide +kernel) (by rintro _ ⟨⟩))
      (by decide +kernel) (by rintro _ ⟨⟩)
  have hregistry : Registry.ReachableFrom .standard () registry ∧ PureTests registry :=
    hadded (hadded (hadded hgrouped (by decide +kernel) (by rintro _ ⟨⟩))
      (by decide +kernel) (by rintro _ ⟨⟩)) (by decide +kernel) (by rintro _ ⟨⟩)
  have heval : ((Registry.evaluateTree .exceeded
      (.and (.not (.named "undefined")) (.named "y")) (.string "s")).run registry).map
        Prod.fst = some (.ok true) := by decide +kernel
  have hfit : first.DefaultsFit .exceeded registry := by
    obtain ⟨⟨_, after⟩, hrun, rfl⟩ := Option.map_eq_some_iff.mp heval
    simp only [first, Rule.DefaultsFit, Option.mem_some_iff, forall_eq']
    exact ⟨rfl, after, hrun⟩
  have hnone (source : String) (tree : Expr) (registry : Registry Unit) :
      (Rule.scalar source tree none).DefaultsFit .exceeded registry := by
    rintro _ ⟨⟩
  have hpure : PureTests recovering := Registry.pureTests_new .standard ()
  exact ⟨⟨hpure, hnone _ _ _, by decide +kernel⟩, hregistry.1, hregistry.2,
    List.forall_mem_cons.mpr ⟨hfit, List.forall_mem_singleton.mpr (hnone _ _ _)⟩,
    by decide +kernel⟩

end Route

end Switchboard
