import Switchboard.Proofs.Dispatch.FirstMatch
import Switchboard.Proofs.Dispatch.Hookless
import Switchboard.Proofs.Registry.Truth

/-!
Under a hook that recovers nothing fails, and what succeeds under a hook that raises is as it
was. An evaluation ends with the truth of its text; a dispatch runs the first route that
matches, or has the result `undefined`; a definition that cannot be made leaves all bindings
alone.
-/

namespace Switchboard

variable {σ S α : Type} {answers : Answers σ}

open Registry (Unattended Recovers Raises Forgiving GrouplessNames)

/-- The promise that no fault ends the attempt. -/
def Promise.Succeeds (_ : List Fault) (fault? : Option Fault) (_ : List Fault) : Prop :=
  fault? = none

theorem chains_succeeds : Promise.Chains Promise.Succeeds where
  refl _ := rfl
  trans _ _ _ _ _ hsecond := hsecond

theorem recover_succeeds {fault : Fault} (h : fault.isRecoverable = true) :
    (recover answers fault).Promises (Recovers answers) Promise.Succeeds := by
  intro registry hregistry hrecovers
  obtain ⟨last, hrun⟩ := hregistry.recover_run_of_recovers hrecovers h
  exact ⟨.ok (), _, hrun, Registry.framed_shown registry fault last, rfl⟩

/-- No test fails under a hook that recovers. -/
theorem succeeds_compositional (answers : Answers σ) :
    Attempt.Compositional answers (Attempt.Promises (Recovers answers) Promise.Succeeds) :=
  Attempt.promises_compositional chains_succeeds fun _ _ hfault => recover_succeeds hfault

namespace Registry

theorem Recovers.resolute {hook : Hook σ} (h : Recovers answers hook) : Resolute answers hook :=
  fun fault => ⟨.recover, h fault⟩

/-- If no name holds a group, an evaluation changes no reading. -/
theorem Forgiving.evaluate_readsLike {registry after : Registry σ}
    (h : registry.Forgiving answers) (hnames : GrouplessNames registry) {source : String}
    {v : Value} {result : Bool}
    (hrun : (evaluate answers source v).run registry = some (.ok result, after)) :
    registry.ReadsLike after :=
  ((determined_compositional h.unattended h.tests hnames h.recovers.resolute).evaluate
    source v).readsLike (.refl registry) hrun

/-- A definition that always succeeds: where it fails under a hook that raises it leaves the
bindings alone, and otherwise it does what it does there. -/
def FallsBack (answers : Answers σ) (operation : Attempt σ Unit) (registry : Registry σ) : Prop :=
  ∃ after, operation.run registry = some (.ok (), after) ∧
    ∀ raiser, Raises answers raiser →
      (∃ fault raised, operation.run (registry.withHook raiser) = some (.error fault, raised) ∧
        after.bindings = registry.bindings) ∨
      ∃ bound, operation.run (registry.withHook raiser) = some (.ok (), bound) ∧
        after = bound.withHook registry.hook

theorem Forgiving.bind_fallsBack {registry : Registry σ} (h : registry.Forgiving answers)
    (overriding : Bool) (name : String) (binding : Binding σ) :
    FallsBack answers (bind answers overriding name binding) registry := by
  rcases hcheck : registry.bindFault? overriding name binding with ⟨_ | fault, checked⟩
  · refine ⟨_, bind_run_of_valid answers hcheck, fun raiser _ => Or.inr ?_⟩
    have hraiser := bindFault?_withHook raiser registry overriding name binding
    rw [hcheck] at hraiser
    refine ⟨_, bind_run_of_valid answers hraiser, ?_⟩
    rw [← makeBinding_withHook, ← (framed_bindFault? hcheck).1.hook]
    rfl
  · obtain ⟨hframed, _⟩ := framed_bindFault? hcheck
    have hchecked := h.framed hframed
    obtain ⟨last, hrun⟩ := hchecked.unattended.recover_run_of_recovers hchecked.recovers
      (of_bindFault?_eq_some hcheck).2
    refine ⟨_, (bind_run_of_fault answers hcheck).trans hrun, fun raiser hraiser => Or.inl ?_⟩
    have hcheckRaiser := bindFault?_withHook raiser registry overriding name binding
    rw [hcheck] at hcheckRaiser
    have hhook : Raises answers (checked.withHook raiser).hook := hraiser
    obtain ⟨raised, hraised⟩ := recover_run hhook fault
    exact ⟨fault, raised, (bind_run_of_fault answers hcheckRaiser).trans hraised,
      hframed.bindings⟩

end Registry

namespace Dispatcher

variable {handover : Handover σ} {table : Dispatcher σ S} {scope : S} {arguments : List Value}
  {registry middle : Registry σ}

/-- All behaviors return a value, as long as settings, bindings and hook are the same. -/
def Returns (answers : Answers σ) (handover : Handover σ) (table : Dispatcher σ S) (scope : S)
    (registry : Registry σ) : Prop :=
  ∀ ordinal route, table.routes[ordinal]? = some route → ∀ arguments middle,
    registry.Framed middle → ∃ v after,
      (start answers handover scope ordinal route arguments).run middle = some (.ok v, after)

/-- The same rules with another behavior behind each. -/
def withBehavior (table : Dispatcher σ S) (body : Behavior σ S) : Dispatcher σ S :=
  ⟨table.routes.map fun route => { route with behavior := body }⟩

theorem tests_withBehavior (answers : Answers σ) (table : Dispatcher σ S) (body : Behavior σ S)
    (arguments : List Value) :
    tests answers (table.withBehavior body).routes arguments =
      tests answers table.routes arguments :=
  List.map_map

theorem decides_withBehavior (body : Behavior σ S) {ordinal : Nat}
    {outcome : Except Fault (List Value)} :
    (table.withBehavior body).Decides answers arguments registry ordinal outcome middle ↔
      table.Decides answers arguments registry ordinal outcome middle := by
  rw [Decides, Decides, tests_withBehavior]

theorem allRefuse_withBehavior (body : Behavior σ S) :
    (table.withBehavior body).AllRefuse answers arguments registry middle ↔
      table.AllRefuse answers arguments registry middle := by
  rw [AllRefuse, AllRefuse, tests_withBehavior, withBehavior, List.length_map]

/-- Selecting a route does not fail. -/
theorem select_run_of_forgiving (h : registry.Forgiving answers) (table : Dispatcher σ S)
    (arguments : List Value) : ∃ chosen after,
      (select answers arguments 0 table.routes).run registry = some (.ok chosen, after) ∧
        registry.Framed after := by
  obtain ⟨outcome, after, hrun, hframed, hsucceeds⟩ :=
    (succeeds_compositional answers).select arguments 0 table.routes registry h.unattended
      h.recovers
  cases outcome with
  | error fault => cases hsucceeds
  | ok chosen => exact ⟨chosen, after, hrun, hframed⟩

/-- The route that decides matches. -/
theorem Decides.exists_ok (h : registry.Forgiving answers) {ordinal : Nat}
    {outcome : Except Fault (List Value)}
    (hdecides : table.Decides answers arguments registry ordinal outcome middle) :
    registry.Framed middle ∧ ∃ settled, outcome = .ok settled := by
  obtain ⟨chosen, after, hselect, hframed⟩ := select_run_of_forgiving h table arguments
  cases outcome with
  | error fault =>
      rw [select_eq_error_iff.mpr ⟨ordinal, hdecides⟩] at hselect
      cases hselect
  | ok settled =>
      obtain ⟨route, hroute⟩ := hdecides.exists_route
      rw [select_eq_some_iff.mpr ⟨ordinal, rfl, hroute, hdecides⟩] at hselect
      cases hselect
      exact ⟨hframed, settled, rfl⟩

/-- If all routes refuse, the hook is shown that no route matches, and the result is
`undefined`. -/
theorem AllRefuse.dispatchWith_run
    (hrefuse : table.AllRefuse answers arguments registry middle)
    (h : registry.Forgiving answers) (handover : Handover σ) (scope : S) :
    ∃ last, (table.dispatchWith answers handover scope arguments).run registry =
      some (.ok .undefined, middle.shown
        (.noMatchingRoute (Value.displayAll arguments) table.routes.length) last) := by
  have hmiddle : middle.Forgiving answers := by
    obtain ⟨chosen, after, hselect, hframed⟩ := select_run_of_forgiving h table arguments
    rw [select_eq_none_iff.mpr hrefuse] at hselect
    cases hselect
    exact h.framed hframed
  obtain ⟨last, hrun⟩ := hmiddle.unattended.recover_run_of_recovers hmiddle.recovers
    (rfl : (Fault.noMatchingRoute (Value.displayAll arguments)
      table.routes.length).isRecoverable = true)
  exact ⟨last, (dispatchWith_of_allRefuse hrefuse).trans (Attempt.run_bind_ok hrun)⟩

/-- A dispatch is a value. -/
theorem Returns.dispatchWith_run (h : registry.Forgiving answers)
    (hreturns : table.Returns answers handover scope registry) (arguments : List Value) :
    ∃ v after, (table.dispatchWith answers handover scope arguments).run registry =
      some (.ok v, after) := by
  rcases exists_decides_or_allRefuse answers table arguments h.unattended with
    ⟨ordinal, outcome, middle, hdecides⟩ | ⟨middle, hrefuse⟩
  · obtain ⟨hframed, settled, rfl⟩ := hdecides.exists_ok h
    obtain ⟨route, hroute, hrun⟩ := dispatchWith_of_matching hdecides
    rw [hrun]
    exact hreturns ordinal route hroute settled middle hframed
  · obtain ⟨last, hrun⟩ := hrefuse.dispatchWith_run h handover scope
    exact ⟨_, _, hrun⟩

/-- All routes refuse if the result is `undefined` whatever the behaviors are. -/
theorem exists_allRefuse_iff (h : registry.Forgiving answers) :
    (∃ middle, table.AllRefuse answers arguments registry middle) ↔
      ∃ after, ∀ body, ((table.withBehavior body).dispatchWith answers handover scope
        arguments).run registry = some (.ok .undefined, after) := by
  constructor
  · rintro ⟨middle, hrefuse⟩
    obtain ⟨last, hrun⟩ := hrefuse.dispatchWith_run h handover scope
    refine ⟨_, fun body => Eq.trans ?_ hrun⟩
    rw [dispatchWith_of_allRefuse hrefuse,
      dispatchWith_of_allRefuse ((allRefuse_withBehavior body).mpr hrefuse), withBehavior,
      List.length_map]
  · rintro ⟨after, hundefined⟩
    rcases exists_decides_or_allRefuse answers table arguments h.unattended with
      ⟨ordinal, outcome, middle, hdecides⟩ | hrefuse
    · obtain ⟨_, settled, rfl⟩ := hdecides.exists_ok h
      -- a behavior that returns something else would show that it has been started
      let body : Behavior σ S := fun _ => .done (.ok .null)
      obtain ⟨route, hroute, hrun⟩ :=
        dispatchWith_of_matching ((decides_withBehavior body).mpr hdecides)
      rw [hundefined body] at hrun
      rw [withBehavior, List.getElem?_map, Option.map_eq_some_iff] at hroute
      obtain ⟨_, _, rfl⟩ := hroute
      cases hrun
    · exact hrefuse

end Dispatcher

open Registry (define redefine evaluate)

/-- With pure tests and a hook that recovers from every fault, an evaluation ends with the truth
of its text, where unknown names and aliases beyond the allowed hops are false; what it comes
to under a hook that raises, if it succeeds there, it comes to here, and the hook is shown
nothing. A dispatch starts the route that matches, or has the result `undefined`, and is a value
if the behaviors return values. Definitions succeed; where a hook that raises makes them fail,
the bindings stay, and otherwise they do what they do there. -/
theorem recovering_total (answers : Answers σ) (registry : Registry σ)
    (h : registry.Forgiving answers) :
    (∀ source v, ∃ result after,
      (evaluate answers source v).run registry = some (.ok result, after) ∧
      registry.Onward after ∧
      result = after.truth registry.options.maxAliasDepth (after.reading source) v ∧
      (GrouplessNames registry →
        result = registry.truth registry.options.maxAliasDepth (registry.reading source) v)) ∧
    (∀ raiser, Raises answers raiser → ∀ source v result after,
      (evaluate answers source v).run (registry.withHook raiser) = some (.ok result, after) →
        (evaluate answers source v).run registry =
          some (.ok result, after.withHook registry.hook) ∧
        after.consulted = registry.consulted) ∧
    (∀ (table : Dispatcher σ S) handover scope arguments,
      let dispatched := (table.dispatchWith answers handover scope arguments).run registry
      (table.Returns answers handover scope registry →
        ∃ v after, dispatched = some (.ok v, after)) ∧
      (∀ ordinal outcome middle,
        table.Decides answers arguments registry ordinal outcome middle →
          ∃ route settled, outcome = .ok settled ∧ table.routes[ordinal]? = some route ∧
            dispatched = (Dispatcher.start answers handover scope ordinal route settled).run
              middle) ∧
      (∀ middle, table.AllRefuse answers arguments registry middle →
        ∃ last, dispatched = some (.ok .undefined, middle.shown
          (.noMatchingRoute (Value.displayAll arguments) table.routes.length) last)) ∧
      ((∃ middle, table.AllRefuse answers arguments registry middle) ↔
        ∃ after, ∀ body, ((table.withBehavior body).dispatchWith answers handover scope
          arguments).run registry = some (.ok .undefined, after))) ∧
    (∀ name binding, Registry.FallsBack answers (define answers name binding) registry) ∧
    ∀ name binding, Registry.FallsBack answers (redefine answers name binding) registry := by
  refine ⟨fun source v => ?_, fun raiser hraiser source v result after hrun => ?_,
    fun table handover scope arguments => ⟨fun hreturns => hreturns.dispatchWith_run h arguments,
      fun ordinal outcome middle hdecides => ?_,
      fun middle hrefuse => hrefuse.dispatchWith_run h handover scope,
      Dispatcher.exists_allRefuse_iff h⟩,
    fun name binding => h.bind_fallsBack false name binding,
    fun name binding => h.bind_fallsBack true name binding⟩
  · obtain ⟨result, after, hrun, honward, hmeaning⟩ := Registry.evaluate_means source v registry h
    have htruth : result = after.truth after.options.maxAliasDepth (after.reading source) v :=
      hmeaning after (.refl after)
    rw [honward.framed.options] at htruth
    refine ⟨result, after, hrun, honward, htruth, fun hnames => ?_⟩
    have hlike := h.evaluate_readsLike hnames hrun
    rw [htruth, Registry.truth_congr hlike.bindings hlike.reading, hlike.reading]
  · obtain ⟨_, hshown, hother⟩ := (needsNoHook_compositional answers).evaluate source v
      (registry.withHook raiser) h.tests hraiser result after hrun
    exact ⟨hother registry.hook, hshown⟩
  · obtain ⟨_, settled, rfl⟩ := hdecides.exists_ok h
    obtain ⟨route, hroute, hrun⟩ := Dispatcher.dispatchWith_of_matching hdecides
    exact ⟨route, settled, rfl, hroute, hrun⟩

/-- A negated unknown name, a name, a call that no route matches, and a definition of the empty
name, under a hook that recovers. -/
theorem recovering_total_gadget :
    let registry : Registry Unit := (Registry.new .standard ()).withHook fun _ => .done .recover
    let table : Dispatcher Unit Unit :=
      ⟨[⟨[.scalar "string" (.named "string") none], fun _ => .done (.ok .null)⟩]⟩
    ((evaluate .exceeded "not gadget" .null).run registry).map Prod.fst = some (.ok true) ∧
      registry.truth 64 (registry.reading "not gadget") .null = true ∧
      (∃ after, (evaluate .exceeded "string" (.string "a")).run registry =
        some (.ok true, after)) ∧
      (∃ v after, (table.dispatchWith .exceeded (fun _ _ => Run.exceeded) () [.null]).run registry =
        some (.ok v, after)) ∧
      Registry.FallsBack .exceeded (define .exceeded "" (.test (.kinds .all))) registry := by
  intro registry table
  have hforgiving : registry.Forgiving .exceeded :=
    ⟨Registry.pureTests_new .standard (), fun _ => trivial, fun _ registry => ⟨registry, rfl⟩⟩
  have hnames : GrouplessNames registry := Registry.grouplessNames_new .standard ()
  have hreturns : table.Returns .exceeded (fun _ _ => Run.exceeded) () registry := by
    intro ordinal route hroute arguments middle _
    rw [List.mem_singleton.mp (List.mem_of_getElem? hroute)]
    exact ⟨.null, middle, rfl⟩
  obtain ⟨hevaluate, hsame, hdispatch, hdefine, _⟩ :=
    recovering_total (S := Unit) .exceeded registry hforgiving
  have hgadget : ((evaluate .exceeded "not gadget" .null).run registry).map Prod.fst =
      some (.ok true) := by decide +kernel
  refine ⟨hgadget, ?_, ?_, (hdispatch table _ () [.null]).1 hreturns, hdefine "" _⟩
  · obtain ⟨result, after, hrun, _, _, htruth⟩ := hevaluate "not gadget" .null
    rw [hrun] at hgadget
    cases hgadget
    exact (htruth hnames).symm
  · have hstring : ((evaluate .exceeded "string" (.string "a")).run
        (registry.withHook Registry.raising)).map Prod.fst = some (.ok true) := by decide +kernel
    obtain ⟨⟨_, after⟩, hrun, rfl⟩ := Option.map_eq_some_iff.mp hstring
    exact ⟨_, (hsame Registry.raising (Registry.raises_raising _) "string" _ true after hrun).1⟩

end Switchboard
