import Switchboard.Proofs.Registry.Closure
import Switchboard.Proofs.Registry.Outcome

/-!
Which unknown names an evaluation can report. If tests and hook leave the registry alone,
an evaluation changes only the cache, the user's state and the list of faults shown, and
always comes to an end. The names that aliases refer to are bound, so an unknown name that
it reports is a name of the evaluated tree itself, however deep aliases go and whatever the
hook has recovered from before.
-/

namespace Switchboard

variable {ι σ α β : Type}

open Registry (ReadsLike GrouplessNames Coherent)

/-- A program that asks the registry nothing. -/
def Program.Aloof : Program ι σ α → Prop
  | .done _ => True
  | .evaluate .. => False
  | .bindAlias .. => False
  | .readState next => ∀ state, (next state).Aloof
  | .writeState _ next => next.Aloof
  | .call _ next => ∀ answer, (next answer).Aloof

/-- A registry whose tests and hook leave it alone. -/
structure Registry.Unattended (registry : Registry σ) : Prop where
  tests : ∀ name body, Table.get? name registry.bindings = some (.test (.custom body)) →
    ∀ v, (body v).Aloof
  hook : ∀ fault, (registry.hook fault).Aloof

/-- A program that asks nothing comes to an end. -/
theorem Program.runClosed_aloof {base : Registry σ} (answers : Answers σ)
    {program : Program Empty σ α} (h : program.Aloof) {registry : Registry σ}
    (hlike : base.ReadsLike registry) :
    ∃ result after, program.runClosed answers registry = some (result, after) ∧
      base.ReadsLike after := by
  induction program generalizing registry with
  | done result => exact ⟨result, registry, rfl, hlike⟩
  | evaluate _ _ _ _ => exact h.elim
  | bindAlias _ _ _ _ _ => exact h.elim
  | readState next ih => exact ih registry.state (h registry.state) hlike
  | writeState state next ih =>
      have hafter : base.ReadsLike { registry with state := state } := hlike.frame rfl rfl rfl rfl
      exact ih h hafter
  | call request _ _ => exact request.elim

/-- An attempt that comes to an end, keeps what is read, and reports no unknown names but
allowed ones. -/
def Attempt.Confines (base : Registry σ) (allowed : String → Prop) (attempt : Attempt σ α) :
    Prop :=
  ∀ registry, base.ReadsLike registry → ∃ outcome after,
    attempt.run registry = some (outcome, after) ∧ base.ReadsLike after ∧
      ∀ name, outcome = .error (.unknownType name) → allowed name

section

variable {base : Registry σ} {allowed : String → Prop} {answers : Answers σ}

theorem Attempt.confines_pure (result : α) :
    Attempt.Confines base allowed (pure result : Attempt σ α) :=
  fun registry h => ⟨.ok result, registry, rfl, h, fun _ heq => by cases heq⟩

theorem Attempt.Confines.imp {attempt : Attempt σ α} (h : attempt.Confines base allowed)
    {allowed' : String → Prop} (himp : ∀ name, allowed name → allowed' name) :
    attempt.Confines base allowed' := by
  intro registry hlike
  obtain ⟨outcome, after, hrun, hafter, hunknown⟩ := h registry hlike
  exact ⟨outcome, after, hrun, hafter, fun name heq => himp name (hunknown name heq)⟩

theorem Attempt.Confines.bind {attempt : Attempt σ α} {next : α → Attempt σ β}
    (hattempt : attempt.Confines base allowed)
    (hnext : ∀ result, (next result).Confines base allowed) :
    (attempt >>= next).Confines base allowed := by
  intro registry h
  obtain ⟨outcome, after, hrun, hafter, hunknown⟩ := hattempt registry h
  cases outcome with
  | ok result =>
      rw [Attempt.run_bind_ok hrun]
      exact hnext result after hafter
  | error fault =>
      refine ⟨.error fault, after, Attempt.run_bind_error hrun, hafter, ?_⟩
      rintro name ⟨⟩
      exact hunknown name rfl

namespace Registry

/-- A fault ends the attempt or counts as false, and is an allowed one if it is an unknown
name. -/
theorem orFalse_confines (h : base.Unattended) {fault : Fault}
    (hfault : ∀ name, fault = .unknownType name → allowed name) :
    (orFalse answers fault).Confines base allowed := by
  intro registry hlike
  have hshown : base.ReadsLike { registry with consulted := registry.consulted ++ [fault] } :=
    hlike.frame rfl rfl rfl rfl
  obtain ⟨verdict, after, hverdict, hafter⟩ :=
    Program.runClosed_aloof answers (hlike.hook ▸ h.hook fault) hshown
  have hconsult : (liftM (consult answers fault) : Attempt σ Verdict).run registry =
      some (.ok verdict, after) := Attempt.run_lift hverdict
  by_cases hrecover : (verdict = .recover && fault.isRecoverable) = true
  · have hrun : (recover answers fault).run registry = some (.ok (), after) := by
      rw [recover, Attempt.run_bind_ok hconsult, if_pos hrecover]
      rfl
    exact ⟨.ok false, after, Attempt.run_bind_ok hrun, hafter, fun _ heq => by cases heq⟩
  · have hrun : (recover answers fault).run registry = some (.error fault, after) := by
      rw [recover, Attempt.run_bind_ok hconsult, if_neg hrecover]
      rfl
    refine ⟨.error fault, after, Attempt.run_bind_error hrun, hafter, ?_⟩
    rintro name ⟨⟩
    exact hfault name rfl

theorem resolve_confines (h : base.Unattended)
    {follow : String → String → Value → Attempt σ Bool} {name : String}
    (hunknown : base.contains name = false → allowed name)
    (hfollow : ∀ source, Table.get? name base.bindings = some (.alias source) → ∀ v,
      (follow name source v).Confines base allowed) (v : Value) :
    (resolve answers follow name v).Confines base allowed := by
  intro registry hlike
  rw [resolve, Attempt.run_get_bind, hlike.bindings]
  cases hbinding : Table.get? name base.bindings with
  | none =>
      have hunbound : base.contains name = false := by
        rw [contains, Table.contains, hbinding]
        rfl
      refine orFalse_confines h ?_ registry hlike
      rintro other ⟨⟩
      exact hunknown hunbound
  | some binding =>
      cases binding with
      | «alias» source => exact hfollow source hbinding v registry hlike
      | test test =>
          cases test with
          | kinds accepted =>
              exact ⟨.ok (accepted.contains v.kind), registry, rfl, hlike,
                fun _ heq => by cases heq⟩
          | custom body =>
              obtain ⟨result, after, hrun, hafter⟩ :=
                Program.runClosed_aloof answers (h.tests name body hbinding v) hlike
              exact ⟨.ok result, after, Attempt.run_lift hrun, hafter, fun _ heq => by cases heq⟩

/-- What is done with a compiled text is done with its reading. -/
theorem compileStep_confines (hnames : GrouplessNames base) (next : Expr → Attempt σ α)
    {source : String} (h : (next (base.reading source)).Confines base allowed) :
    Attempt.Confines base allowed (do
      let parsed ← (compileStep source : Run σ Parsed)
      next parsed.tree) := by
  intro registry hlike
  rw [← hlike.reading source] at h
  exact h _ (hlike.compile hnames source)

/-- An unknown name that an evaluation reports is a name of the tree. -/
theorem evaluateFrom_confines {initial : String → Bool} (h : base.Unattended)
    (hcoherent : Coherent initial base) (hops : Nat) (tree : Expr) (v : Value) :
    (evaluateFrom answers hops tree v).Confines base
      fun name => name ∈ tree.names ∧ base.contains name = false := by
  induction hops generalizing tree v with
  | zero =>
      refine Expr.evaluateWith_induction Attempt.confines_pure (fun _ _ => Attempt.Confines.bind)
        (fun name hname v => ?_) v
      refine resolve_confines h (fun hunbound => ⟨hname, hunbound⟩) (fun source _ v => ?_) v
      exact orFalse_confines h fun _ heq => by cases heq
  | succ hops ih =>
      refine Expr.evaluateWith_induction Attempt.confines_pure (fun _ _ => Attempt.Confines.bind)
        (fun name hname v => ?_) v
      refine resolve_confines h (fun hunbound => ⟨hname, hunbound⟩) (fun source hsource v => ?_) v
      apply compileStep_confines hcoherent.groupless fun tree => evaluateFrom answers hops tree v
      refine (ih (base.reading source) v).imp ?_
      -- an alias reports nothing: the names it refers to are bound
      rintro other ⟨hother, hunbound⟩
      have hbound : base.contains other = true :=
        hcoherent.closed name other ⟨source, hsource, hother⟩
      rw [hunbound] at hbound
      cases hbound

theorem evaluate_confines {initial : String → Bool} (h : base.Unattended)
    (hcoherent : Coherent initial base) (source : String) (v : Value) :
    (evaluate answers source v).Confines base
      fun name => name ∈ (base.reading source).names ∧ base.contains name = false := by
  apply compileStep_confines hcoherent.groupless fun tree => evaluateTree answers tree v
  intro registry hlike
  rw [evaluateTree, Attempt.run_get_bind]
  exact evaluateFrom_confines h hcoherent _ (base.reading source) v registry hlike

/-- In every reachable state without parentheses in its names, the names that aliases refer
to are bound; and if tests and hook leave the registry alone, every evaluation comes to an
end, and a name that it reports as unknown is a name of the tree of its text. -/
theorem unknownType_mem_names {options : Options} {state : σ} {registry : Registry σ}
    (hreach : ReachableFrom options state registry)
    (hparens : ∀ name, registry.contains name = true → '(' ∉ name.toList ∧ ')' ∉ name.toList)
    (h : registry.Unattended) :
    (∀ name other, registry.Refers name other → registry.contains other = true) ∧
      ∀ answers source v, ∃ outcome after,
        (evaluate answers source v).run registry = some (outcome, after) ∧
        ∀ name, outcome = .error (.unknownType name) →
          name ∈ (registry.compile source).1.tree.names ∧ registry.contains name = false := by
  have hcoherent : Coherent (new options state).contains registry :=
    coherent_of_steps hreach.steps fun name hname =>
      Groups.groupless_of_notMem (hparens name hname).1
  refine ⟨hcoherent.closed, fun answers source v => ?_⟩
  obtain ⟨outcome, after, hrun, _, hunknown⟩ :=
    evaluate_confines h hcoherent source v registry (.refl registry)
  exact ⟨outcome, after, hrun, hunknown⟩

theorem unattended_new (options : Options) (state : σ) : (new options state).Unattended where
  tests name body hbinding v := by
    obtain ⟨result, hbody⟩ := pureTests_new options state name body hbinding v
    rw [hbody]
    trivial
  hook _ := trivial

/-- The unknown name behind a built-in alias that refuses is one of the text. -/
theorem unknownType_mem_names_gadget :
    ((evaluate .exceeded "set or gadget" .null).run (new .standard ())).map Prod.fst =
        some (.error (.unknownType "gadget")) ∧
      "gadget" ∈ ((new .standard ()).compile "set or gadget").1.tree.names := by
  have houtcome : ((evaluate .exceeded "set or gadget" .null).run (new .standard ())).map
      Prod.fst = some (.error (.unknownType "gadget")) := by decide +kernel
  obtain ⟨_, hevaluate⟩ := unknownType_mem_names (.refl : ReachableFrom .standard () _)
    (fun _ => paren_notMem_of_contains_new) (unattended_new .standard ())
  obtain ⟨outcome, after, hrun, hunknown⟩ := hevaluate .exceeded "set or gadget" .null
  refine ⟨houtcome, (hunknown "gadget" ?_).1⟩
  rw [hrun, Option.map_some, Option.some.injEq] at houtcome
  exact houtcome

end Registry

end

end Switchboard
