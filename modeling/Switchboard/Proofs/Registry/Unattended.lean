import Switchboard.Proofs.Registry.Unknown

/-!
Registries that are left alone. A program that asks the registry nothing and makes no call
changes nothing but the user's state. So in a registry whose tests and hook ask nothing, a
test answers, and a fault that is shown to the hook is noted and gets its verdict, and all
the rest of the registry is as it was.
-/

namespace Switchboard

variable {ι σ α : Type}

/-- A program that asks the registry nothing, makes no call, and ends with a good result. -/
def Program.Alone (good : α → Prop) : Program ι σ α → Prop
  | .done result => good result
  | .evaluate .. => False
  | .bindAlias .. => False
  | .readState next => ∀ state, (next state).Alone good
  | .writeState _ next => next.Alone good
  | .call .. => False

theorem Program.Aloof.alone {program : Program Empty σ α} (h : program.Aloof) :
    program.Alone fun _ => True := by
  induction program with
  | done result => trivial
  | evaluate _ _ _ _ => exact h.elim
  | bindAlias _ _ _ _ _ => exact h.elim
  | readState next ih => exact fun state => ih state (h state)
  | writeState state next ih => exact ih h
  | call request _ _ => exact request.elim

/-- What a program that is alone comes to depends on the user's state only, and that is all
that it changes. -/
theorem Program.Alone.run_eq {good : α → Prop} {program : Program ι σ α}
    (h : program.Alone good) (answers : Answers σ) (call : ι → Run σ (Except Fault Value))
    (state : σ) : ∃ result last, good result ∧ ∀ registry : Registry σ,
      registry.state = state →
        program.run answers call registry = some (result, { registry with state := last }) := by
  induction program generalizing state with
  | done result => exact ⟨result, state, h, by rintro registry rfl; rfl⟩
  | evaluate _ _ _ _ => exact h.elim
  | bindAlias _ _ _ _ _ => exact h.elim
  | readState next ih =>
      obtain ⟨result, last, hgood, hrun⟩ := ih state (h state) state
      refine ⟨result, last, hgood, ?_⟩
      rintro registry rfl
      exact hrun registry rfl
  | writeState written next ih =>
      obtain ⟨result, last, hgood, hrun⟩ := ih h written
      exact ⟨result, last, hgood, fun registry _ => hrun { registry with state := written } rfl⟩
  | call _ _ _ => exact h.elim

namespace Registry

/-- The registry after its hook has seen a fault and left this user's state. -/
def shown (registry : Registry σ) (fault : Fault) (state : σ) : Registry σ :=
  { registry with consulted := registry.consulted ++ [fault], state := state }

/-- The settings, the bindings and the hook are the same. -/
structure Framed (registry after : Registry σ) : Prop where
  options : after.options = registry.options
  bindings : after.bindings = registry.bindings
  hook : after.hook = registry.hook

theorem Framed.refl (registry : Registry σ) : registry.Framed registry :=
  ⟨rfl, rfl, rfl⟩

theorem Framed.trans {registry middle after : Registry σ} (hfirst : registry.Framed middle)
    (hsecond : middle.Framed after) : registry.Framed after :=
  ⟨hsecond.options.trans hfirst.options, hsecond.bindings.trans hfirst.bindings,
    hsecond.hook.trans hfirst.hook⟩

theorem framed_shown (registry : Registry σ) (fault : Fault) (state : σ) :
    registry.Framed (registry.shown fault state) :=
  ⟨rfl, rfl, rfl⟩

/-- A hook that recovers from every fault it may recover from, whatever else it does. -/
def Recovers (answers : Answers σ) (hook : Hook σ) : Prop :=
  ∀ fault registry, ∃ after, (hook fault).runClosed answers registry = some (.recover, after)

/-- What the tests and the hook do matters, and nothing else. -/
theorem Unattended.frame {registry after : Registry σ} (h : registry.Unattended)
    (hbindings : after.bindings = registry.bindings) (hhook : after.hook = registry.hook) :
    after.Unattended :=
  ⟨hbindings ▸ h.tests, hhook ▸ h.hook⟩

theorem Unattended.framed {registry after : Registry σ} (h : registry.Unattended)
    (hframed : registry.Framed after) : after.Unattended :=
  h.frame hframed.bindings hframed.hook

theorem PureTests.framed {registry after : Registry σ} (h : PureTests registry)
    (hframed : registry.Framed after) : PureTests after := by
  rwa [PureTests, hframed.bindings]

theorem PureTests.compile {registry : Registry σ} (h : PureTests registry)
    (source : String) : PureTests (registry.compile source).2 :=
  h

theorem GrouplessNames.framed {registry after : Registry σ} (h : GrouplessNames registry)
    (hframed : registry.Framed after) : GrouplessNames after := by
  rwa [GrouplessNames, contains_congr hframed.bindings]

theorem grouplessNames_new (options : Options) (state : σ) :
    GrouplessNames (new options state) := fun _ hname =>
  Groups.groupless_of_notMem (paren_notMem_of_contains_new hname).1

theorem unattended_of_pureTests {registry : Registry σ} (htests : PureTests registry)
    (hhook : ∀ fault, (registry.hook fault).Aloof) : registry.Unattended where
  tests name body hbinding v := by
    obtain ⟨result, hbody⟩ := htests name body hbinding v
    rw [hbody]
    trivial
  hook := hhook

/-- A test of an unattended registry comes to an answer, which depends on the user's state
only. -/
theorem Unattended.check_run {registry : Registry σ} (h : registry.Unattended) {name : String}
    {test : Test σ} (hbinding : Table.get? name registry.bindings = some (.test test))
    (answers : Answers σ) (v : Value) : ∃ result last, ∀ other : Registry σ,
      other.state = registry.state →
        test.check answers v other = some (result, { other with state := last }) := by
  cases test with
  | kinds accepted =>
      refine ⟨accepted.contains v.kind, registry.state, fun other hstate => ?_⟩
      rw [← hstate]
      rfl
  | custom body =>
      obtain ⟨result, last, _, hrun⟩ :=
        (h.tests name body hbinding v).alone.run_eq answers Empty.elim registry.state
      exact ⟨result, last, hrun⟩

/-- A pure test answers as it holds, and changes nothing. -/
theorem PureTests.check_run {registry : Registry σ} (h : PureTests registry) {name : String}
    {test : Test σ} (hbinding : Table.get? name registry.bindings = some (.test test))
    (answers : Answers σ) (v : Value) (after : Registry σ) :
    test.check answers v after = some (test.holds v, after) := by
  cases test with
  | kinds accepted => rfl
  | custom body =>
      obtain ⟨result, hbody⟩ := h name body hbinding v
      simp only [Test.check, Test.holds, hbody]
      rfl

/-- The hook of an unattended registry comes to a verdict, which depends on the fault and the
user's state only. -/
theorem Unattended.consult_run {registry : Registry σ} (h : registry.Unattended)
    (answers : Answers σ) (fault : Fault) : ∃ verdict last, ∀ other : Registry σ,
      other.hook = registry.hook → other.state = registry.state →
        consult answers fault other = some (verdict, other.shown fault last) := by
  obtain ⟨verdict, last, _, hrun⟩ :=
    (h.hook fault).alone.run_eq answers Empty.elim registry.state
  refine ⟨verdict, last, fun other hhook hstate => ?_⟩
  rw [← hhook] at hrun
  exact hrun { other with consulted := other.consulted ++ [fault] } hstate

/-- Recovering from a fault is up to the hook of an unattended registry. -/
theorem Unattended.recover_run {registry : Registry σ} (h : registry.Unattended)
    (answers : Answers σ) (fault : Fault) : ∃ outcome last, ∀ other : Registry σ,
      other.hook = registry.hook → other.state = registry.state →
        (recover answers fault).run other = some (outcome, other.shown fault last) := by
  obtain ⟨verdict, last, hrun⟩ := h.consult_run answers fault
  refine ⟨if verdict = .recover && fault.isRecoverable then .ok () else .error fault, last,
    fun other hhook hstate => ?_⟩
  rw [recover, Attempt.run_bind_ok (Attempt.run_lift (hrun other hhook hstate))]
  split <;> rfl

theorem Unattended.report_run {registry : Registry σ} (h : registry.Unattended)
    (answers : Answers σ) (fault : Fault) : ∃ last,
      (report answers fault : Attempt σ α).run registry =
        some (.error fault, registry.shown fault last) := by
  obtain ⟨verdict, last, hrun⟩ := h.consult_run answers fault
  exact ⟨last, Attempt.run_bind_ok (Attempt.run_lift (hrun registry rfl rfl))⟩

/-- The verdict on a fault that the hook always answers the same. -/
theorem Unattended.consult_run_of_verdict {registry : Registry σ} (h : registry.Unattended)
    {answers : Answers σ} {fault : Fault} {verdict : Verdict}
    (hverdict : ∀ registry', ∃ after,
      (registry.hook fault).runClosed answers registry' = some (verdict, after)) :
    ∃ last, consult answers fault registry = some (verdict, registry.shown fault last) := by
  obtain ⟨other, last, hrun⟩ := h.consult_run answers fault
  have hrun := hrun registry rfl rfl
  obtain ⟨after, hother⟩ :=
    hverdict { registry with consulted := registry.consulted ++ [fault] }
  have heq : consult answers fault registry = some (verdict, after) := hother
  rw [hrun] at heq
  cases heq
  exact ⟨last, hrun⟩

theorem Unattended.recover_run_of_raises {registry : Registry σ} (h : registry.Unattended)
    {answers : Answers σ} (hraises : Raises answers registry.hook) (fault : Fault) :
    ∃ last, (recover answers fault).run registry =
      some (.error fault, registry.shown fault last) := by
  obtain ⟨last, hrun⟩ := h.consult_run_of_verdict (hraises fault)
  exact ⟨last, Attempt.run_bind_ok (Attempt.run_lift hrun)⟩

theorem Unattended.recover_run_of_recovers {registry : Registry σ} (h : registry.Unattended)
    {answers : Answers σ} (hrecovers : Recovers answers registry.hook) {fault : Fault}
    (hfault : fault.isRecoverable = true) :
    ∃ last, (recover answers fault).run registry = some (.ok (), registry.shown fault last) := by
  obtain ⟨last, hrun⟩ := h.consult_run_of_verdict (hrecovers fault)
  refine ⟨last, ?_⟩
  rw [recover, Attempt.run_bind_ok (Attempt.run_lift hrun), if_pos (by simp [hfault])]
  rfl

/-- The check of a binding shows nothing and binds nothing. -/
theorem framed_bindFault? {registry checked : Registry σ} {overriding : Bool} {name : String}
    {binding : Binding σ} {fault? : Option Fault}
    (h : registry.bindFault? overriding name binding = (fault?, checked)) :
    registry.Framed checked ∧ checked.consulted = registry.consulted := by
  have hchecked := bindFault?_snd registry overriding name binding
  rw [h] at hchecked
  rcases hchecked with rfl | ⟨source, rfl⟩
  · exact ⟨.refl _, rfl⟩
  · exact ⟨⟨rfl, rfl, rfl⟩, rfl⟩

/-- What keeps a name from being bound is a fault of definitions, and can be recovered from. -/
theorem of_bindFault?_eq_some {registry checked : Registry σ} {overriding : Bool} {name : String}
    {binding : Binding σ} {fault : Fault}
    (h : registry.bindFault? overriding name binding = (some fault, checked)) :
    fault.phase = .definition ∧ fault.isRecoverable = true := by
  unfold bindFault? at h
  split at h
  · cases h
    exact ⟨rfl, rfl⟩
  · split at h
    · cases h
      exact ⟨rfl, rfl⟩
    · rcases binding with test | source
      · cases h
      · rw [Prod.mk.injEq, Option.map_eq_some_iff] at h
        obtain ⟨⟨objection, _, rfl⟩, _⟩ := h
        exact ⟨rfl, rfl⟩

/-- What a name answers is what its binding answers. -/
theorem resolve_run (answers : Answers σ) (follow : String → String → Value → Attempt σ Bool)
    (name : String) (v : Value) (registry : Registry σ) :
    (resolve answers follow name v).run registry =
      match Table.get? name registry.bindings with
      | none => (orFalse answers (.unknownType name)).run registry
      | some (.test test) => (liftM (test.check answers v) : Attempt σ Bool).run registry
      | some (.alias source) => (follow name source v).run registry := by
  rw [resolve, Attempt.run_get_bind]
  rcases Table.get? name registry.bindings with _ | test | source <;> rfl

end Registry

end Switchboard
