import Switchboard.Proofs.Dispatch.Composition
import Switchboard.Proofs.Registry.Unattended

/-!
How attempts end in a registry whose tests and hook leave it alone. They always come to an
end, with a result or a fault, and leave the settings, the bindings and the hook as they
were. What else can be promised depends on the verdicts of the hook, and concerns the faults
that it is shown: a promise that holds of a single fault, and that goes over to attempts in
a row, holds of all tests.
-/

namespace Switchboard

variable {σ α β : Type}

/-- The fault of an outcome, if it is one. -/
def fault? : Except Fault α → Option Fault
  | .ok _ => none
  | .error fault => some fault

open Registry (Framed Unattended Raises)

/-- An attempt that comes to an end in every registry that is left alone and whose hook is
under a rule, and that keeps a promise on the faults shown before, its own fault, and the
faults shown after. -/
def Attempt.Promises (rule : Hook σ → Prop)
    (promise : List Fault → Option Fault → List Fault → Prop) (attempt : Attempt σ α) : Prop :=
  ∀ registry : Registry σ, registry.Unattended → rule registry.hook → ∃ outcome after,
    attempt.run registry = some (outcome, after) ∧ registry.Framed after ∧
      promise registry.consulted (fault? outcome) after.consulted

/-- A promise that goes over to attempts in a row. -/
structure Promise.Chains (promise : List Fault → Option Fault → List Fault → Prop) : Prop where
  refl : ∀ shown, promise shown none shown
  trans : ∀ before middle fault? after, promise before none middle →
    promise middle fault? after → promise before fault? after

section

variable {answers : Answers σ} {rule : Hook σ → Prop}
  {promise : List Fault → Option Fault → List Fault → Prop}

theorem Attempt.promises_pure (h : Promise.Chains promise) (result : α) :
    Attempt.Promises rule promise (pure result : Attempt σ α) :=
  fun registry _ _ => ⟨.ok result, registry, rfl, .refl registry, h.refl _⟩

/-- Attempts in a row keep a promise if the second does after every result that the first can
come to. -/
theorem Attempt.Promises.bind_of_run (h : Promise.Chains promise) {attempt : Attempt σ α}
    {next : α → Attempt σ β} (hattempt : attempt.Promises rule promise)
    (hnext : ∀ result before after, attempt.run before = some (.ok result, after) →
      (next result).Promises rule promise) :
    (attempt >>= next).Promises rule promise := by
  intro registry hregistry hrule
  obtain ⟨outcome, middle, hrun, hframed, hkept⟩ := hattempt registry hregistry hrule
  cases outcome with
  | error fault => exact ⟨.error fault, middle, Attempt.run_bind_error hrun, hframed, hkept⟩
  | ok result =>
      obtain ⟨outcome, after, hsecond, hframed', hkept'⟩ :=
        hnext result _ _ hrun middle (hregistry.framed hframed) (hframed.hook ▸ hrule)
      refine ⟨outcome, after, ?_, hframed.trans hframed', h.trans _ _ _ _ hkept hkept'⟩
      rw [Attempt.run_bind_ok hrun, hsecond]

theorem Attempt.Promises.bind (h : Promise.Chains promise) {attempt : Attempt σ α}
    {next : α → Attempt σ β} (hattempt : attempt.Promises rule promise)
    (hnext : ∀ result, (next result).Promises rule promise) :
    (attempt >>= next).Promises rule promise :=
  hattempt.bind_of_run h fun result _ _ _ => hnext result

/-- A run that neither faults nor shows anything keeps every promise. -/
theorem Attempt.promises_of_quiet (h : Promise.Chains promise) {attempt : Attempt σ α}
    (hquiet : ∀ registry : Registry σ, registry.Unattended → ∃ result after,
      attempt.run registry = some (.ok result, after) ∧ registry.Framed after ∧
        after.consulted = registry.consulted) : attempt.Promises rule promise := by
  intro registry hregistry _
  obtain ⟨result, after, hrun, hframed, hconsulted⟩ := hquiet registry hregistry
  exact ⟨.ok result, after, hrun, hframed, hconsulted ▸ h.refl registry.consulted⟩

theorem compileStep_promises (h : Promise.Chains promise) (source : String) :
    Attempt.Promises rule promise
      (liftM (Registry.compileStep source : Run σ Parsed) : Attempt σ Parsed) :=
  Attempt.promises_of_quiet h fun registry _ =>
    ⟨(registry.compile source).1, (registry.compile source).2, rfl, ⟨rfl, rfl, rfl⟩, rfl⟩

theorem get_promises (h : Promise.Chains promise) :
    Attempt.Promises rule promise (get : Attempt σ (Registry σ)) :=
  Attempt.promises_of_quiet h fun registry _ =>
    ⟨registry, registry, rfl, .refl registry, rfl⟩

/-- A promise that is kept when a fault is met is kept by all tests. -/
theorem Attempt.promises_compositional (h : Promise.Chains promise)
    (hfault : ∀ fault, fault.phase = .call → fault.isRecoverable = true →
      (recover answers fault).Promises rule promise) :
    Attempt.Compositional answers (Attempt.Promises rule promise) where
  pure := Attempt.promises_pure h
  bind := Attempt.Promises.bind h
  resolve {follow} hfollow name v := by
    intro registry hregistry hrule
    rw [Registry.resolve_run]
    rcases hbinding : Table.get? name registry.bindings with _ | test | source
    · exact (Attempt.Promises.bind h (hfault (.unknownType name) rfl rfl)
        fun _ => Attempt.promises_pure h false) registry hregistry hrule
    · obtain ⟨result, last, hrun⟩ := hregistry.check_run hbinding answers v
      exact ⟨.ok result, { registry with state := last },
        Attempt.run_lift (hrun registry rfl), ⟨rfl, rfl, rfl⟩, h.refl _⟩
    · exact hfollow name source v registry hregistry hrule
  cyclic name :=
    Attempt.Promises.bind h (hfault (.cyclicType name) rfl rfl)
      fun _ => Attempt.promises_pure h false
  compile hnext source :=
    Attempt.Promises.bind h (compileStep_promises h source) fun parsed => hnext parsed.tree
  settings hnext :=
    Attempt.Promises.bind h (get_promises h) fun registry => hnext registry.options.maxAliasDepth

end

/-- An attempt that comes to an end in every registry that is left alone. -/
abbrev Attempt.Ends (attempt : Attempt σ α) : Prop :=
  attempt.Promises (fun _ => True) fun _ _ _ => True

theorem chains_true : Promise.Chains fun _ _ _ => True :=
  ⟨fun _ => trivial, fun _ _ _ _ _ _ => trivial⟩

theorem recover_ends (answers : Answers σ) (fault : Fault) : (recover answers fault).Ends := by
  intro registry hregistry _
  obtain ⟨outcome, last, hrun⟩ := hregistry.recover_run answers fault
  exact ⟨outcome, registry.shown fault last, hrun registry rfl rfl,
    Registry.framed_shown _ _ _, trivial⟩

/-- All tests come to an end in a registry that is left alone. -/
theorem ends_compositional (answers : Answers σ) :
    Attempt.Compositional answers (Attempt.Ends (σ := σ)) :=
  Attempt.promises_compositional chains_true fun fault _ _ => recover_ends answers fault

end Switchboard
