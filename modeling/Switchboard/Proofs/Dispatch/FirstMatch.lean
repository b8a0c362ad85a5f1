import Switchboard.Proofs.Dispatch.Building
import Switchboard.Proofs.Dispatch.Selection
import Switchboard.Proofs.Dispatch.Standing
import Switchboard.Proofs.Dispatch.Twins
import Switchboard.Proofs.Rule.Routing

/-!
Which route a call runs. The routes are tested in their order on the arguments of the caller,
and the first that does not refuse them decides the call: if it matches, its behavior is
started, and if its test fails, so does the call. Routes that are added behind the others
change nothing for a call that an earlier route decides, as long as no name holds a group:
building rules compiles texts, and nothing else. A name with a group can lose its meaning when
a text that is spelled like it is compiled, and with it a call its route.
-/

namespace Switchboard

variable {σ S α β : Type}

open Registry (Twins Unattended GrouplessNames PureTests Resolute)

/-- An attempt that leaves a twin if it succeeds, as long as no name holds a group. -/
def Attempt.LeavesTwin (attempt : Attempt σ α) : Prop :=
  ∀ registry : Registry σ, GrouplessNames registry → ∀ result after,
    attempt.run registry = some (.ok result, after) → registry.Twins after

theorem Attempt.LeavesTwin.bind {attempt : Attempt σ α} {next : α → Attempt σ β}
    (hattempt : attempt.LeavesTwin) (hnext : ∀ result, (next result).LeavesTwin) :
    (attempt >>= next).LeavesTwin := by
  intro registry hnames result after hrun
  rcases Attempt.run_bind_eq_some_iff.mp hrun with ⟨_, _, ⟨⟩⟩ | ⟨first, middle, hfirst, hsecond⟩
  have hmiddle := hattempt registry hnames first middle hfirst
  exact hmiddle.trans (hnext first middle (hnames.framed hmiddle.framed) result after hsecond)

/-- A construction that succeeds leaves a twin. -/
theorem leavesTwin_constructive (answers : Answers σ) :
    Attempt.Constructive answers (Attempt.LeavesTwin (σ := σ)) where
  pure _ := by
    rintro registry _ result after hrun
    obtain ⟨_, rfl⟩ := Attempt.run_pure_eq_some_iff.mp hrun
    exact .refl after
  bind := Attempt.LeavesTwin.bind
  report fault _ := by
    intro registry _ result after hrun
    rcases Attempt.run_bind_eq_some_iff.mp hrun with ⟨_, _, ⟨⟩⟩ | ⟨_, _, _, ⟨⟩⟩
  compile source := by
    rintro registry hnames result after ⟨⟩
    exact Registry.twins_compile hnames source

namespace Dispatcher

/-- The routes before an ordinal refuse the arguments, and the test of the route there has an
outcome that is no refusal: the arguments as it settles them, or a fault. -/
def Decides (answers : Answers σ) (table : Dispatcher σ S) (arguments : List Value)
    (registry : Registry σ) (ordinal : Nat) (outcome : Except Fault (List Value))
    (after : Registry σ) : Prop :=
  Attempt.Reaches (tests answers table.routes arguments) registry (List.replicate ordinal none)
    (outcome.map some) after

/-- All routes refuse the arguments. -/
def AllRefuse (answers : Answers σ) (table : Dispatcher σ S) (arguments : List Value)
    (registry after : Registry σ) : Prop :=
  Attempt.InTurn (tests answers table.routes arguments) registry
    (List.replicate table.routes.length none) after

variable {answers : Answers σ} {table : Dispatcher σ S} {arguments : List Value}
  {registry after : Registry σ}

/-- There is a route at the ordinal that decides. -/
theorem Decides.exists_route {ordinal : Nat} {outcome : Except Fault (List Value)}
    (h : table.Decides answers arguments registry ordinal outcome after) :
    ∃ route, table.routes[ordinal]? = some route := by
  obtain ⟨_, hattempt⟩ := Attempt.Reaches.exists_getElem? h
  rw [List.length_replicate, tests, List.getElem?_map, Option.map_eq_some_iff] at hattempt
  obtain ⟨route, hroute, _⟩ := hattempt
  exact ⟨route, hroute⟩

theorem dispatchWith_of_matching {handover : Handover σ} {scope : S} {ordinal : Nat}
    {settled : List Value}
    (h : table.Decides answers arguments registry ordinal (.ok settled) after) :
    ∃ route, table.routes[ordinal]? = some route ∧
      (table.dispatchWith answers handover scope arguments).run registry =
        (start answers handover scope ordinal route settled).run after := by
  obtain ⟨route, hroute⟩ := h.exists_route
  have hselect := select_eq_some_iff.mpr ⟨ordinal, (Nat.zero_add _).symm, hroute, h⟩
  exact ⟨route, hroute, Attempt.run_bind_ok hselect⟩

theorem dispatchWith_of_failing {handover : Handover σ} {scope : S} {ordinal : Nat}
    {fault : Fault}
    (h : table.Decides answers arguments registry ordinal (.error fault) after) :
    (table.dispatchWith answers handover scope arguments).run registry =
      some (.error fault, after) :=
  Attempt.run_bind_error (select_eq_error_iff.mpr ⟨ordinal, h⟩)

theorem dispatchWith_of_allRefuse {handover : Handover σ} {scope : S}
    (h : table.AllRefuse answers arguments registry after) :
    (table.dispatchWith answers handover scope arguments).run registry =
      (do
        recover answers
          (.noMatchingRoute (Value.displayAll arguments) table.routes.length)
        return .undefined : Attempt σ Value).run after :=
  Attempt.run_bind_ok (select_eq_none_iff.mpr h)

/-- A route decides, or all refuse. -/
theorem exists_decides_or_allRefuse (answers : Answers σ) (table : Dispatcher σ S)
    (arguments : List Value) (h : registry.Unattended) :
    (∃ ordinal outcome after, table.Decides answers arguments registry ordinal outcome after) ∨
      ∃ after, table.AllRefuse answers arguments registry after := by
  obtain ⟨outcome, after, hrun, _⟩ :=
    (ends_compositional answers).select arguments 0 table.routes registry h trivial
  rcases outcome with fault | _ | ⟨ordinal, route, settled⟩
  · obtain ⟨ordinal, hreaches⟩ := select_eq_error_iff.mp hrun
    exact Or.inl ⟨ordinal, .error fault, after, hreaches⟩
  · exact Or.inr ⟨after, select_eq_none_iff.mp hrun⟩
  · obtain ⟨ordinal, _, _, hreaches⟩ := select_eq_some_iff.mp hrun
    exact Or.inl ⟨ordinal, .ok settled, after, hreaches⟩

/-- An extended table has its own routes first. -/
theorem routes_of_extend {building : Answers σ} {items : List (Item σ S)}
    {extended : Dispatcher σ S} {grown : Registry σ}
    (h : (table.extend building items).run registry = some (.ok extended, grown)) :
    ∃ routes, extended.routes = table.routes ++ routes := by
  rcases Attempt.run_bind_eq_some_iff.mp h with ⟨_, _, ⟨⟩⟩ | ⟨routes, middle, _, hmade⟩
  obtain ⟨hextended, _⟩ := Attempt.run_pure_eq_some_iff.mp hmade
  cases hextended
  exact ⟨routes, rfl⟩

/-- The route that decides a call decides it in an extended table too. -/
theorem Decides.extend {ordinal : Nat} {outcome : Except Fault (List Value)}
    (h : table.Decides answers arguments registry ordinal outcome after)
    (hnames : GrouplessNames registry) (hregistry : registry.Unattended)
    {building : Answers σ} {items : List (Item σ S)} {extended : Dispatcher σ S}
    {grown : Registry σ}
    (hextend : (table.extend building items).run registry = some (.ok extended, grown)) :
    ∃ grownAfter, extended.Decides answers arguments grown ordinal outcome grownAfter ∧
      after.Twins grownAfter := by
  have htwins : registry.Twins grown :=
    (leavesTwin_constructive building).extend table items registry hnames extended grown hextend
  have htied : ∀ attempt ∈ tests answers table.routes arguments, attempt.Tied :=
    forall_tests (fun route => (tied_compositional answers).routeTest route arguments) _
  obtain ⟨grownAfter, hreaches, hafter⟩ := Attempt.Reaches.twins h htied hnames hregistry htwins
  obtain ⟨routes, hroutes⟩ := routes_of_extend hextend
  refine ⟨grownAfter, ?_, hafter⟩
  rw [Decides, hroutes, tests_append]
  exact hreaches.append _

/-- A call is decided by the first route that does not refuse the arguments of the caller: the
behavior of a route that matches is started on the arguments as that route settles them, and
the fault of a route that fails ends the call. If all routes refuse, a fault with the text of
the caller's arguments is raised, or the result is `undefined`. It makes no difference whether
the routes may write to the arguments; nor, if tests are pure and the hook is resolute, whether
they are tested in turn or each by itself. A table that has been extended decides the call by
the same route, with the same outcome. This holds for all answers and handovers, so for
`dispatch` with any bound on the nesting. -/
theorem dispatch_first_match (answers : Answers σ) (handover : Handover σ)
    (table : Dispatcher σ S) (scope : S) (arguments : List Value) (registry : Registry σ) :
    let dispatched := (table.dispatchWith answers handover scope arguments).run registry
    let tests := tests answers table.routes arguments
    (registry.Unattended →
      (∃ ordinal outcome after,
        table.Decides answers arguments registry ordinal outcome after) ∨
      ∃ after, table.AllRefuse answers arguments registry after) ∧
    (∀ ordinal settled after,
      table.Decides answers arguments registry ordinal (.ok settled) after →
        ∃ route, table.routes[ordinal]? = some route ∧
          dispatched = (start answers handover scope ordinal route settled).run after) ∧
    (∀ ordinal fault after,
      table.Decides answers arguments registry ordinal (.error fault) after →
        dispatched = some (.error fault, after)) ∧
    (∀ after, table.AllRefuse answers arguments registry after →
      dispatched = (do
        recover answers
          (.noMatchingRoute (Value.displayAll arguments) table.routes.length)
        return .undefined : Attempt σ Value).run after) ∧
    ((table.dispatchInPlace answers handover scope).run arguments registry).map
      (fun ((outcome, _), after) => (outcome, after)) = dispatched ∧
    (GrouplessNames registry → registry.Unattended → PureTests registry →
      Resolute answers registry.hook →
        (∀ ordinal outcome,
          (∃ after, table.Decides answers arguments registry ordinal outcome after) ↔
            (∀ before < ordinal, Attempt.ByItself tests registry before (.ok none)) ∧
              Attempt.ByItself tests registry ordinal (outcome.map some)) ∧
        ((∃ after, table.AllRefuse answers arguments registry after) ↔
          ∀ ordinal < table.routes.length,
            Attempt.ByItself tests registry ordinal (.ok none))) ∧
    (GrouplessNames registry → registry.Unattended →
      ∀ (building : Answers σ) (items : List (Item σ S)) (extended : Dispatcher σ S)
        (grown : Registry σ),
        (table.extend building items).run registry = some (.ok extended, grown) →
          ∀ ordinal outcome after,
            table.Decides answers arguments registry ordinal outcome after →
              ∃ grownAfter,
                extended.Decides answers arguments grown ordinal outcome grownAfter ∧
                after.Twins grownAfter ∧ extended.routes[ordinal]? = table.routes[ordinal]?) := by
  intro dispatched attempts
  refine ⟨exists_decides_or_allRefuse answers table arguments,
    fun ordinal settled after h => dispatchWith_of_matching h,
    fun ordinal fault after h => dispatchWith_of_failing h,
    fun after h => dispatchWith_of_allRefuse h,
    dispatchInPlace_run answers handover table scope arguments registry,
    fun hnames hregistry htests hhook => ?_,
    fun hnames hregistry building items extended grown hextend ordinal outcome after h => ?_⟩
  · have hdetermined : ∀ attempt ∈ attempts, attempt.Determined registry :=
      forall_tests (fun route => (determined_compositional hregistry htests hnames
        hhook).routeTest route arguments) _
    refine ⟨fun ordinal outcome => ?_, ?_⟩
    · exact Attempt.reaches_replicate_iff hdetermined (.refl registry) (.refl registry)
    · simp only [AllRefuse, ← show attempts.length = table.routes.length from List.length_map _]
      exact Attempt.inTurn_replicate_iff hdetermined (.refl registry) (.refl registry)
  · obtain ⟨grownAfter, hdecides, hafter⟩ := h.extend hnames hregistry hextend
    refine ⟨grownAfter, hdecides, hafter, ?_⟩
    obtain ⟨routes, hroutes⟩ := routes_of_extend hextend
    obtain ⟨route, hroute⟩ := h.exists_route
    rw [hroutes, List.getElem?_append_left (List.getElem?_eq_some_iff.mp hroute).1]

/-- A table whose first route takes a string and whose second takes a value of an unknown type:
a string is taken, also after a further route has been added; anything else fails at the second
route; and two arguments are refused by both. -/
theorem dispatch_first_match_string_gadget :
    let string : Route Unit Unit :=
      ⟨[.scalar "string" (.named "string") none], fun _ => .done (.ok .null)⟩
    let gadget : Route Unit Unit :=
      ⟨[.scalar "gadget" (.named "gadget") none], fun _ => .done (.ok .undefined)⟩
    let table : Dispatcher Unit Unit := ⟨[string, gadget]⟩
    let items : List (Item Unit Unit) :=
      [.rules [.type "number"], .behavior fun _ => .done (.ok .undefined)]
    let registry : Registry Unit := Registry.new .standard ()
    let dispatch (arguments : List Value) :=
      (table.dispatchWith .exceeded (fun _ _ => Run.exceeded) () arguments).run registry
    dispatch [.string "a"] = some (.ok .null, registry) ∧
      Attempt.ByItself (tests .exceeded table.routes [.string "a"]) registry 0
        (.ok (some [.string "a"])) ∧
      (∃ extended grown grownAfter,
        (table.extend .exceeded items).run registry = some (.ok extended, grown) ∧
        extended.Decides .exceeded [.string "a"] grown 0 (.ok [.string "a"]) grownAfter) ∧
      (∃ after, dispatch [.null] = some (.error (.unknownType "gadget"), after)) ∧
      ∃ after, dispatch [.null, .null] =
        some (.error (.noMatchingRoute "null, null" 2), after) := by
  intro string gadget table items registry dispatch
  have hnames : GrouplessNames registry := Registry.grouplessNames_new _ _
  have hregistry : registry.Unattended := Registry.unattended_new _ _
  obtain ⟨_, hmatching, _, _, _, halone, hextended⟩ := dispatch_first_match .exceeded
    (fun _ _ => Run.exceeded) table () [.string "a"] registry
  obtain ⟨_, _, hfailing, _⟩ := dispatch_first_match .exceeded
    (fun _ _ => Run.exceeded) table () [.null] registry
  obtain ⟨_, _, _, hrefused, _⟩ := dispatch_first_match .exceeded
    (fun _ _ => Run.exceeded) table () [.null, .null] registry
  have hstring : table.Decides .exceeded [.string "a"] registry 0 (.ok [.string "a"]) registry :=
    .here (by with_unfolding_all rfl)
  have hgadget : table.Decides .exceeded [.null] registry 1 (.error (.unknownType "gadget"))
      (registry.shown (.unknownType "gadget") ()) :=
    .later (by with_unfolding_all rfl) (.here (by with_unfolding_all rfl))
  have hnone : table.AllRefuse .exceeded [.null, .null] registry registry :=
    .cons (by with_unfolding_all rfl) (.cons (by with_unfolding_all rfl) (.nil _))
  refine ⟨?_, ?_, ?_, ⟨_, hfailing 1 _ _ hgadget⟩, ?_⟩
  · obtain ⟨route, hroute, hrun⟩ := hmatching 0 _ _ hstring
    cases hroute
    exact hrun
  · exact (((halone hnames hregistry (Registry.pureTests_new _ _)
      (Registry.resolute_raising .exceeded)).1 0 (.ok [.string "a"])).mp ⟨_, hstring⟩).2
  · obtain ⟨extended, grown, hextend⟩ : ∃ extended grown,
        (table.extend .exceeded items).run registry = some (.ok extended, grown) := ⟨_, _, rfl⟩
    obtain ⟨grownAfter, hdecides, _⟩ :=
      hextended hnames hregistry .exceeded items extended grown hextend 0 _ _ hstring
    exact ⟨extended, grown, grownAfter, hextend, hdecides⟩
  · exact ⟨_, (hrefused _ hnone).trans (by with_unfolding_all rfl)⟩

/-- Adding a route for one type text compiles the text. -/
theorem extend_type_run (answers : Answers σ) (table : Dispatcher σ S) {source : String}
    (hsource : Text.isBlankText source = false) (body : Behavior σ S) (registry : Registry σ) :
    (table.extend answers [.rules [.type source], .behavior body]).run registry =
      some (.ok ⟨table.routes ++ [⟨[.scalar source (registry.reading source) none], body⟩]⟩,
        (registry.compile source).2) := by
  have hrules : (Rule.buildAll answers [.type source]).run registry =
      some (.ok [.scalar source (registry.reading source) none],
        (registry.compile source).2) := by
    rw [Rule.buildAll, Attempt.run_bind_ok (Rule.build_type_run answers hsource registry)]
    rfl
  have hroutes : (buildRoutes answers 0 [.rules [.type source], .behavior body]).run registry =
      some (.ok [⟨[.scalar source (registry.reading source) none], body⟩],
        (registry.compile source).2) := by
    rw [buildRoutes, Attempt.run_bind_ok hrules]
    rfl
  rw [extend, Attempt.run_bind_ok hroutes]
  rfl

/-- The name `(a)` loses its meaning when an extension compiles a text that is spelled like it:
the call that the first route took before fails at that route after the extension. -/
theorem dispatch_after_grouped_name :
    let bound (name : String) (accepted : Kind) (registry : Registry Unit) : Registry Unit :=
      registry.makeBinding name (.test (.kinds (.single accepted)))
    let route (source : String) : List (Item Unit Unit) :=
      [.rules [.type source], .behavior fun _ => .done (.ok .undefined)]
    let selected (table : Dispatcher Unit Unit) (registry : Registry Unit) :=
      ((select .exceeded [.string "s"] 0 table.routes).run registry).map
        fun (outcome, _) => outcome.map (Option.map Prod.fst)
    ∃ aliased registry grown table extended,
      (Registry.define .exceeded "x" (.alias "(a)")).run
        (bound "(a)" .string (Registry.new .standard ())) = some (.ok (), aliased) ∧
      (ofItems .exceeded (route "x")).run (bound "b c" .null aliased) =
        some (.ok table, registry) ∧
      (table.extend .exceeded (route " (a)")).run registry = some (.ok extended, grown) ∧
      Registry.ReachableFrom .standard () (bound "b c" .null aliased) ∧
      PureTests registry ∧
      selected table registry = some (.ok (some 0)) ∧
      selected extended grown = some (.error (.unknownType "a")) := by
  intro bound route selected
  let grouped := bound "(a)" .string (Registry.new .standard ())
  let aliased := (grouped.compile "(a)").2.makeBinding "x" (.alias "(a)")
  -- the new name of two words empties the cache, and `(a)` is read anew
  let compound := bound "b c" .null aliased
  have hgrouped : Registry.ReachableFrom .standard () grouped :=
    Registry.ReachableFrom.bindTest .refl (by decide) _
  have hdefine : (Registry.define .exceeded "x" (.alias "(a)")).run grouped =
      some (.ok (), aliased) := rfl
  have haliased : Registry.ReachableFrom .standard () aliased :=
    hgrouped.tail (.define _ _ 0 "x" (.alias "(a)") (.ok ()) hdefine)
  have hpure : PureTests compound := by
    refine PureTests.makeBinding (PureTests.makeBinding ?_ "x" ?_) "b c" ?_
    · exact PureTests.makeBinding (Registry.pureTests_new _ _) "(a)" (by rintro _ ⟨⟩)
    · rintro _ ⟨⟩
    · rintro _ ⟨⟩
  exact ⟨aliased, _, _, _, _, hdefine, extend_type_run _ _ (by decide) _ _,
    extend_type_run _ _ (by decide) _ _, haliased.bindTest (by decide) _, hpure.compile "x",
    by decide +kernel, by decide +kernel⟩

end Dispatcher

end Switchboard
