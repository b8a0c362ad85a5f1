import Switchboard.Proofs.Dispatch.Composition
import Switchboard.Proofs.Dispatch.InTurn
import Switchboard.Proofs.Registry.Unattended

/-!
What does not depend on the hook. A hook is asked for a verdict only when a fault is met, and
one that raises every fault ends the operation there. So whatever succeeds under such a hook
has never asked it, and succeeds in the same way under every other hook. A definition that
falls back does what it does under a hook that raises, except that it is no failure.
-/

namespace Switchboard

variable {σ S α β : Type} {answers : Answers σ}

open Registry (PureTests Raises)

namespace Registry

/-- The registry with another hook. -/
def withHook (hook : Hook σ) (registry : Registry σ) : Registry σ :=
  { registry with hook := hook }

@[simp]
theorem bindings_withHook (hook : Hook σ) (registry : Registry σ) :
    (registry.withHook hook).bindings = registry.bindings :=
  rfl

/-- A hook has no part in compiling a text. -/
theorem compile_withHook (hook : Hook σ) (registry : Registry σ) (source : String) :
    (registry.withHook hook).compile source =
      ((registry.compile source).1, (registry.compile source).2.withHook hook) :=
  rfl

theorem nameObjection?_withHook (hook : Hook σ) (registry : Registry σ) (name source : String)
    (names : List String) : (registry.withHook hook).nameObjection? name source names =
      registry.nameObjection? name source names := by
  induction names with
  | nil => rfl
  | cons referenced rest ih =>
      rw [nameObjection?, nameObjection?, ih]
      rfl

/-- Nor has it in checking and making a binding. -/
theorem bindFault?_withHook (hook : Hook σ) (registry : Registry σ) (overriding : Bool)
    (name : String) (binding : Binding σ) :
    (registry.withHook hook).bindFault? overriding name binding =
      ((registry.bindFault? overriding name binding).1,
        (registry.bindFault? overriding name binding).2.withHook hook) := by
  unfold bindFault?
  split
  · rfl
  · change (if !overriding && registry.contains name then _ else _) = _
    split
    · rfl
    · rcases binding with test | source
      · rfl
      · simp only [aliasObjection?]
        split
        · rfl
        · simp only [compile_withHook, nameObjection?_withHook]

theorem makeBinding_withHook (hook : Hook σ) (registry : Registry σ) (name : String)
    (binding : Binding σ) :
    (registry.withHook hook).makeBinding name binding =
      (registry.makeBinding name binding).withHook hook := by
  unfold makeBinding
  change (if registry.contains name || Text.isPlainWord name then _ else _) = _
  split <;> rfl

end Registry

/-- An attempt whose success under a hook that raises takes no hook: it has shown nothing, and
succeeds in the same way under every other. -/
def Attempt.NeedsNoHook (answers : Answers σ) (attempt : Attempt σ α) : Prop :=
  ∀ registry : Registry σ, PureTests registry → Raises answers registry.hook →
    ∀ result after, attempt.run registry = some (.ok result, after) →
      registry.Framed after ∧ after.consulted = registry.consulted ∧
        ∀ hook, attempt.run (registry.withHook hook) = some (.ok result, after.withHook hook)

theorem Attempt.needsNoHook_pure (result : α) :
    Attempt.NeedsNoHook answers (pure result : Attempt σ α) := by
  intro registry _ _ other after hrun
  obtain ⟨hresult, rfl⟩ := Attempt.run_pure_eq_some_iff.mp hrun
  cases hresult
  exact ⟨.refl _, rfl, fun _ => rfl⟩

theorem Attempt.NeedsNoHook.bind {attempt : Attempt σ α} {next : α → Attempt σ β}
    (hattempt : attempt.NeedsNoHook answers)
    (hnext : ∀ result, (next result).NeedsNoHook answers) :
    (attempt >>= next).NeedsNoHook answers := by
  intro registry htests hraises result after hrun
  rcases Attempt.run_bind_eq_some_iff.mp hrun with ⟨_, _, ⟨⟩⟩ | ⟨first, middle, hfirst, hsecond⟩
  obtain ⟨hframed, hshown, hother⟩ := hattempt registry htests hraises first middle hfirst
  obtain ⟨hframed', hshown', hother'⟩ := hnext first middle (htests.framed hframed)
    (hframed.hook ▸ hraises) result after hsecond
  refine ⟨hframed.trans hframed', hshown'.trans hshown, fun hook => ?_⟩
  rw [Attempt.run_bind_ok (hother hook), hother' hook]

theorem Registry.orFalse_needsNoHook (fault : Fault) :
    (orFalse answers fault).NeedsNoHook answers := by
  intro registry _ hraises result after hrun
  obtain ⟨_, hfault⟩ := orFalse_run hraises fault
  rw [hfault] at hrun
  cases hrun

theorem Registry.resolve_needsNoHook {follow : String → String → Value → Attempt σ Bool}
    (hfollow : ∀ name source v, (follow name source v).NeedsNoHook answers) (name : String)
    (v : Value) : (resolve answers follow name v).NeedsNoHook answers := by
  intro registry htests hraises result after hrun
  simp only [resolve_run, bindings_withHook] at hrun ⊢
  rcases hbinding : Table.get? name registry.bindings with _ | test | source <;>
    simp only [hbinding] at hrun ⊢
  · exact orFalse_needsNoHook _ registry htests hraises result after hrun
  · rw [Attempt.run_lift (htests.check_run hbinding answers v registry)] at hrun
    cases hrun
    exact ⟨.refl _, rfl, fun hook => Attempt.run_lift (htests.check_run hbinding answers v _)⟩
  · exact hfollow name source v registry htests hraises result after hrun

/-- A test that succeeds under a hook that raises takes no hook. -/
theorem needsNoHook_compositional (answers : Answers σ) :
    Attempt.Compositional answers (Attempt.NeedsNoHook answers) where
  pure := Attempt.needsNoHook_pure
  bind := Attempt.NeedsNoHook.bind
  resolve := Registry.resolve_needsNoHook
  cyclic _ := Registry.orFalse_needsNoHook _
  compile {_ next} hnext source := by
    intro registry htests hraises result after hrun
    obtain ⟨hframed, hshown, hother⟩ := hnext (registry.reading source)
      (registry.compile source).2 htests hraises result after hrun
    exact ⟨⟨hframed.options, hframed.bindings, hframed.hook⟩, hshown, hother⟩
  settings {_ next} hnext registry htests hraises result after hrun :=
    hnext registry.options.maxAliasDepth registry htests hraises result after hrun

end Switchboard
