import Switchboard.Proofs.Dispatch.Building
import Switchboard.Proofs.Dispatch.Ending
import Switchboard.Proofs.Dispatch.InTurn
import Switchboard.Proofs.Registry.Shown

/-!
Every failure is shown to the hook once. Faults arise deep in descriptors, in aliases of
aliases and in rules of routes, and pass through several layers. With a hook that raises every
fault, the layer that meets a fault shows it, and the layers above hand it on: an operation
that fails has shown the fault that it fails with and no other, one that succeeds has shown
none, and the phase of the fault tells definitions, constructions and calls apart.
-/

namespace Switchboard

variable {σ S α : Type}

open Registry (Unattended Raises)

/-- The promise that a fault of this phase, and no other, has been shown if it ends the
attempt. -/
def Promise.Reported (phase : Phase) (before : List Fault) (fault? : Option Fault)
    (after : List Fault) : Prop :=
  after = before ++ fault?.toList ∧ ∀ fault ∈ fault?, fault.phase = phase

theorem chains_reported (phase : Phase) : Promise.Chains (Promise.Reported phase) where
  refl shown := ⟨(List.append_nil shown).symm, by simp⟩
  trans before middle fault? after hfirst hsecond := by
    rw [Promise.Reported, hfirst.1, Option.toList_none, List.append_nil] at hsecond
    exact hsecond

/-- An operation that ends, and that has shown the hook its fault and no other if it fails, and
nothing if it succeeds; the fault is of this phase. -/
def Attempt.ReportsOnce (phase : Phase) (attempt : Attempt σ α) (registry : Registry σ) : Prop :=
  ∃ outcome after, attempt.run registry = some (outcome, after) ∧
    (∀ fault, outcome = .error fault ↔ after.consulted = registry.consulted ++ [fault]) ∧
    ((∃ result, outcome = .ok result) ↔ after.consulted = registry.consulted) ∧
    ∀ fault, outcome = .error fault → fault.phase = phase

theorem Attempt.reportsOnce_of_reported {phase : Phase} {attempt : Attempt σ α}
    {registry after : Registry σ} {outcome : Except Fault α}
    (hrun : attempt.run registry = some (outcome, after))
    (h : Promise.Reported phase registry.consulted (fault? outcome) after.consulted) :
    attempt.ReportsOnce phase registry := by
  obtain ⟨hshown, hphase⟩ := h
  refine ⟨outcome, after, hrun, ?_⟩
  rw [hshown]
  cases outcome with
  | ok result => simp [fault?]
  | error fault =>
      refine ⟨fun other => ?_, by simp [fault?], ?_⟩
      · simp [fault?]
      · rintro _ ⟨⟩
        exact hphase fault rfl

theorem Attempt.Promises.reportsOnce {answers : Answers σ} {phase : Phase}
    {attempt : Attempt σ α} (h : attempt.Promises (Raises answers) (Promise.Reported phase))
    {registry : Registry σ} (hregistry : registry.Unattended)
    (hraises : Raises answers registry.hook) : attempt.ReportsOnce phase registry := by
  obtain ⟨_, _, hrun, _, hreported⟩ := h registry hregistry hraises
  exact Attempt.reportsOnce_of_reported hrun hreported

section

variable {answers : Answers σ}

theorem recover_reports {phase : Phase} {fault : Fault} (h : fault.phase = phase) :
    (recover answers fault).Promises (Raises answers) (Promise.Reported phase) := by
  intro registry hregistry hraises
  obtain ⟨last, hrun⟩ := hregistry.recover_run_of_raises hraises fault
  exact ⟨.error fault, _, hrun, Registry.framed_shown registry fault last, rfl, by simpa [fault?]⟩

theorem report_reports {phase : Phase} {fault : Fault} (h : fault.phase = phase) :
    (report answers fault : Attempt σ α).Promises (Raises answers) (Promise.Reported phase) := by
  intro registry hregistry _
  obtain ⟨last, hrun⟩ : ∃ last, (report answers fault : Attempt σ α).run registry =
      some (.error fault, registry.shown fault last) := hregistry.report_run answers fault
  exact ⟨.error fault, _, hrun, Registry.framed_shown registry fault last, rfl, by simpa [fault?]⟩

/-- Tests report faults of calls. -/
theorem reports_compositional (answers : Answers σ) :
    Attempt.Compositional answers
      (Attempt.Promises (Raises answers) (Promise.Reported .call)) :=
  Attempt.promises_compositional (chains_reported .call) fun _ hphase _ => recover_reports hphase

/-- Constructions report faults of constructions. -/
theorem reports_constructive (answers : Answers σ) :
    Attempt.Constructive answers
      (Attempt.Promises (Raises answers) (Promise.Reported .construction)) where
  pure := Attempt.promises_pure (chains_reported .construction)
  bind := Attempt.Promises.bind (chains_reported .construction)
  report _ hphase := report_reports hphase
  compile := compileStep_promises (chains_reported .construction)

namespace Registry

/-- Binding a name reports faults of definitions. -/
theorem bind_reportsOnce {registry : Registry σ} (h : registry.Unattended)
    (hraises : Raises answers registry.hook) (overriding : Bool) (name : String)
    (binding : Binding σ) :
    (bind answers overriding name binding).ReportsOnce .definition registry := by
  rcases hcheck : registry.bindFault? overriding name binding with ⟨_ | fault, checked⟩
  · exact Attempt.reportsOnce_of_reported (bind_run_of_valid answers hcheck)
      ⟨by simp [fault?, consulted_bind hcheck], by simp [fault?]⟩
  · obtain ⟨hframed, hconsulted⟩ := framed_bindFault? hcheck
    obtain ⟨last, hrun⟩ :=
      (h.framed hframed).recover_run_of_raises (hframed.hook ▸ hraises) fault
    refine Attempt.reportsOnce_of_reported ((bind_run_of_fault answers hcheck).trans hrun)
      ⟨?_, by simpa [fault?] using (of_bindFault?_eq_some hcheck).1⟩
    simp [fault?, shown, hconsulted]

end Registry

namespace Dispatcher

/-- All behaviors return a value, without any question and without using their call. -/
def ReturnsAlone (table : Dispatcher σ S) : Prop :=
  ∀ route ∈ table.routes, ∀ call, (route.behavior call).Alone fun result =>
    ∃ v, result = .ok v

variable {table : Dispatcher σ S} {handover : Handover σ} {scope : S} {arguments : List Value}

/-- Starting a behavior that returns by itself reports nothing. -/
theorem ReturnsAlone.start_promises (h : table.ReturnsAlone) {ordinal : Nat} {route : Route σ S}
    (hroute : table.routes[ordinal]? = some route) :
    (start answers handover scope ordinal route arguments).Promises (Raises answers)
      (Promise.Reported .call) := by
  refine Attempt.promises_of_quiet (chains_reported .call) fun registry _ => ?_
  obtain ⟨_, last, ⟨v, rfl⟩, hrun⟩ :=
    (h route (List.mem_of_getElem? hroute) ⟨scope, ordinal, arguments⟩).run_eq answers
      (handover ordinal) registry.state
  exact ⟨v, { registry with state := last }, hrun registry rfl, ⟨rfl, rfl, rfl⟩, rfl⟩

theorem ReturnsAlone.dispatchWith_promises (h : table.ReturnsAlone) :
    (table.dispatchWith answers handover scope arguments).Promises (Raises answers)
      (Promise.Reported .call) := by
  refine Attempt.Promises.bind_of_run (chains_reported .call)
    ((reports_compositional answers).select arguments 0 table.routes) ?_
  rintro (_ | ⟨ordinal, route, settled⟩) before after hselect
  · exact (recover_reports rfl).bind (chains_reported .call) fun _ =>
      Attempt.promises_pure (chains_reported .call) _
  · obtain ⟨_, hordinal, hroute, _⟩ := select_eq_some_iff.mp hselect
    rw [Nat.zero_add] at hordinal
    exact h.start_promises (hordinal ▸ hroute)

theorem ReturnsAlone.invokeWith_promises (h : table.ReturnsAlone) (ordinal : Nat) :
    (table.invokeWith answers handover ordinal scope arguments).Promises (Raises answers)
      (Promise.Reported .call) := by
  rw [invokeWith]
  split
  · next route hroute => exact h.start_promises hroute
  · exact report_reports rfl

end Dispatcher

open Registry (define redefine evaluate)

/-- With a hook that raises every fault, and with tests, hook and behaviors that leave the
registry alone, every operation that fails has shown the hook its fault and no other, and every
operation that succeeds has shown nothing. The fault is one of definitions, constructions or
calls, as the operation is. This holds for all answers and handovers, so for `dispatch` and
`invoke` with any bound on the nesting. -/
theorem operations_reportOnce (answers : Answers σ) (registry : Registry σ)
    (h : registry.Unattended) (hraises : Raises answers registry.hook) :
    (∀ name binding, (define answers name binding).ReportsOnce .definition registry) ∧
    (∀ name binding, (redefine answers name binding).ReportsOnce .definition registry) ∧
    (∀ source v, (evaluate answers source v).ReportsOnce .call registry) ∧
    (∀ descriptor, (Rule.build answers descriptor).ReportsOnce .construction registry) ∧
    (∀ (rule : Rule) v, (rule.test answers v).ReportsOnce .call registry) ∧
    (∀ (route : Route σ S) arguments, (route.test answers arguments).ReportsOnce .call registry) ∧
    (∀ items : List (Item σ S),
      (Dispatcher.ofItems answers items).ReportsOnce .construction registry) ∧
    ∀ table : Dispatcher σ S,
      (∀ items, (table.extend answers items).ReportsOnce .construction registry) ∧
      (table.ReturnsAlone → ∀ handover scope arguments,
        (table.dispatchWith answers handover scope arguments).ReportsOnce .call registry ∧
        ∀ ordinal, (table.invokeWith answers handover ordinal scope arguments).ReportsOnce
          .call registry) := by
  have htests := reports_compositional answers
  have hbuilds := reports_constructive answers
  refine ⟨fun name binding => Registry.bind_reportsOnce h hraises false name binding,
    fun name binding => Registry.bind_reportsOnce h hraises true name binding,
    fun source v => (htests.evaluate source v).reportsOnce h hraises,
    fun descriptor => (hbuilds.build descriptor).reportsOnce h hraises,
    fun rule v => (htests.test rule v).reportsOnce h hraises,
    fun route arguments => (htests.routeTest route arguments).reportsOnce h hraises,
    fun items => (hbuilds.extend .empty items).reportsOnce h hraises,
    fun table => ⟨fun items => (hbuilds.extend table items).reportsOnce h hraises,
      fun hreturns handover scope arguments => ⟨?_, fun ordinal => ?_⟩⟩⟩
  · exact hreturns.dispatchWith_promises.reportsOnce h hraises
  · exact (hreturns.invokeWith_promises ordinal).reportsOnce h hraises

/-- A hook that writes down the faults it is shown and raises them: an unknown name, and a call
that no route matches. -/
theorem operations_reportOnce_recording :
    let recording : Hook (List Fault) := fun fault =>
      .readState fun seen => .writeState (seen ++ [fault]) (.done .raise)
    let registry := { Registry.new .standard ([] : List Fault) with hook := recording }
    let table : Dispatcher (List Fault) Unit :=
      ⟨[⟨[.scalar "string" (.named "string") none], fun _ => .done (.ok .null)⟩]⟩
    (evaluate .exceeded "gadget" .null).ReportsOnce .call registry ∧
      (table.dispatchWith .exceeded (fun _ _ => Run.exceeded) () [.null]).ReportsOnce .call
        registry ∧
      ((evaluate .exceeded "gadget" .null).run registry).map
          (fun (outcome, after) => (outcome, after.consulted)) =
        some (.error (.unknownType "gadget"), [.unknownType "gadget"]) := by
  intro recording registry table
  have h : registry.Unattended :=
    ⟨(Registry.unattended_new .standard []).tests, fun _ _ => trivial⟩
  have hraises : Raises .exceeded registry.hook := fun _ _ => ⟨_, rfl⟩
  have hreturns : table.ReturnsAlone := by
    intro route hroute call
    rw [List.mem_singleton.mp hroute]
    exact ⟨.null, rfl⟩
  obtain ⟨_, _, hevaluate, _, _, _, _, htable⟩ :=
    operations_reportOnce (S := Unit) .exceeded registry h hraises
  exact ⟨hevaluate "gadget" .null, ((htable table).2 hreturns _ () [.null]).1,
    by decide +kernel⟩

end

end Switchboard
