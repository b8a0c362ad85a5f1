import Switchboard.Proofs.Registry.Entries

/-!
The hook sees every fault. The list of faults shown only grows, and a fault that ends an
evaluation is on it, whatever tests and hooks do in between.
-/

namespace Switchboard

variable {σ α β : Type}

open Registry (Step Steps)

namespace Registry

/-- Binding a name shows nothing. -/
theorem consulted_bind {registry checked : Registry σ} {overriding : Bool} {name : String}
    {binding : Binding σ} (h : registry.bindFault? overriding name binding = (none, checked)) :
    (checked.makeBinding name binding).consulted = registry.consulted := by
  have hmade : (checked.makeBinding name binding).consulted = checked.consulted := by
    rw [makeBinding]
    split <;> rfl
  have hsnd := bindFault?_snd registry overriding name binding
  rw [h] at hsnd
  rcases hsnd with heq | ⟨source, heq⟩
  · exact hmade.trans (congrArg consulted heq)
  · exact hmade.trans ((congrArg consulted heq).trans rfl)

theorem Step.consulted_prefix {registry after : Registry σ} (h : Step registry after) :
    registry.consulted <+: after.consulted := by
  cases h with
  | bind checked overriding name binding h => rw [consulted_bind h]
  | compile source => exact List.prefix_rfl
  | consult fault => exact List.prefix_append _ _
  | write state => exact List.prefix_rfl
  | setHook hook => exact List.prefix_rfl

theorem Steps.consulted_prefix {registry after : Registry σ} (h : Steps registry after) :
    registry.consulted <+: after.consulted := by
  induction h with
  | refl => exact List.prefix_rfl
  | tail _ hlast ih => exact ih.trans (Step.consulted_prefix hlast)

end Registry

/-- An attempt that ends in no fault but one that has been shown. -/
def Attempt.Shows (attempt : Attempt σ α) : Prop :=
  ∀ registry fault after, attempt.run registry = some (.error fault, after) →
    fault ∈ after.consulted

theorem Attempt.shows_pure (result : α) : Attempt.Shows (pure result : Attempt σ α) := by
  rintro registry fault after ⟨⟩

theorem Attempt.shows_lift (run : Run σ α) : Attempt.Shows (liftM run : Attempt σ α) := by
  intro registry fault after h
  change (run registry).bind _ = _ at h
  obtain ⟨⟨result, middle⟩, _, hpure⟩ := Option.bind_eq_some_iff.mp h
  cases hpure

theorem Attempt.Shows.bind {attempt : Attempt σ α} {next : α → Attempt σ β}
    (hattempt : attempt.Shows) (hnext : ∀ result, (next result).Shows) :
    (attempt >>= next).Shows := by
  intro registry fault after h
  obtain ⟨outcome, middle, hfirst, hsecond⟩ := Run.bind_eq_some_iff.mp h
  cases outcome with
  | ok result => exact hnext result middle fault after hsecond
  | error other =>
      cases hsecond
      exact hattempt registry fault after hfirst

theorem recover_shows {answers : Answers σ} (hanswers : answers.Stepwise) (fault : Fault) :
    (recover answers fault).Shows := by
  intro registry other after h
  obtain ⟨outcome, middle, hlift, hverdict⟩ := Run.bind_eq_some_iff.mp h
  change (consult answers fault registry).bind _ = _ at hlift
  obtain ⟨⟨verdict, shown⟩, hconsult, hok⟩ := Option.bind_eq_some_iff.mp hlift
  cases hok
  have hmiddle : fault ∈ middle.consulted := by
    have hsteps := Program.runClosed_stepwise hanswers (registry.hook fault) _ _ _ hconsult
    exact (Registry.Steps.consulted_prefix hsteps).subset (by simp)
  change (if _ then _ else _ : Attempt σ Unit).run middle = _ at hverdict
  split at hverdict
  · cases hverdict
  · cases hverdict
    exact hmiddle

namespace Registry

theorem orFalse_shows {answers : Answers σ} (hanswers : answers.Stepwise) (fault : Fault) :
    (orFalse answers fault).Shows :=
  (recover_shows hanswers fault).bind fun _ => Attempt.shows_pure false

/-- Nothing in an evaluation ends in a fault but the look-up of names, which shows it. -/
theorem shows_compositional {answers : Answers σ} (hanswers : answers.Stepwise) :
    Attempt.Compositional answers (Attempt.Shows (σ := σ)) where
  pure := Attempt.shows_pure
  bind := Attempt.Shows.bind
  resolve hfollow name v := by
    refine (Attempt.shows_lift _).bind fun registry => ?_
    split
    · exact orFalse_shows hanswers _
    · exact Attempt.shows_lift _
    · next source _ => exact hfollow name source v
  cyclic name := orFalse_shows hanswers (.cyclicType name)
  compile hnext _ := (Attempt.shows_lift _).bind fun parsed => hnext parsed.tree
  settings hnext :=
    (Attempt.shows_lift _).bind fun registry => hnext registry.options.maxAliasDepth

/-- A fault that ends an evaluation has been shown to the hook. -/
theorem evaluateTree_shows {answers : Answers σ} (hanswers : answers.Stepwise) (tree : Expr)
    (v : Value) : (evaluateTree answers tree v).Shows :=
  (shows_compositional hanswers).evaluateTree tree v

theorem evaluate_shows {answers : Answers σ} (hanswers : answers.Stepwise) (source : String)
    (v : Value) : (evaluate answers source v).Shows :=
  (shows_compositional hanswers).evaluate source v

end Registry

end Switchboard
