import Switchboard.Proofs.Dispatch.Composition
import Switchboard.Proofs.Dispatch.InTurn
import Switchboard.Proofs.Registry.Outcome
import Switchboard.Proofs.Registry.Unattended

/-!
Tests on their own. If tests look at nothing but their value, and the hook always gives the
same verdict on a fault and leaves the registry alone, then the outcome of a test is fixed: it
is the same whatever has been tested before. So it does not matter that a dispatch tests each
route in the registry that the test before it has left; the routes may as well be tested one
by one, each on its own, in the registry that the call finds.
-/

namespace Switchboard

variable {σ S α β : Type}

open Registry (GrouplessNames PureTests Raises Unattended)

/-- A hook whose verdict on a fault is always the same, whatever else it does. -/
def Registry.Resolute (answers : Answers σ) (hook : Hook σ) : Prop :=
  ∀ fault, ∃ verdict, ∀ registry, ∃ after,
    (hook fault).runClosed answers registry = some (verdict, after)

theorem Registry.resolute_raising (answers : Answers σ) : Resolute answers raising :=
  fun fault => ⟨.raise, fun registry => raises_raising answers fault registry⟩

/-- An attempt that has the same outcome on all registries that read like `base`. -/
def Attempt.Determined (base : Registry σ) (attempt : Attempt σ α) : Prop :=
  ∃ outcome, attempt.Computes base outcome

theorem Attempt.Determined.bind {base : Registry σ} {attempt : Attempt σ α}
    {next : α → Attempt σ β} (hattempt : attempt.Determined base)
    (hnext : ∀ result, (next result).Determined base) : (attempt >>= next).Determined base := by
  obtain ⟨outcome, houtcome⟩ := hattempt
  choose outcomes houtcomes using hnext
  exact ⟨_, houtcome.bind houtcomes⟩

section

variable {base : Registry σ} {answers : Answers σ}

/-- What a fault comes to is fixed by the verdict on it. -/
theorem Registry.orFalse_determined (hbase : base.Unattended)
    (hhook : Resolute answers base.hook) (fault : Fault) :
    (orFalse answers fault).Determined base := by
  obtain ⟨verdict, hverdict⟩ := hhook fault
  refine ⟨if verdict = .recover && fault.isRecoverable then .ok false else .error fault,
    fun registry hlike => ?_⟩
  have hregistry : registry.Unattended := hbase.frame hlike.bindings hlike.hook
  obtain ⟨last, hconsult⟩ := hregistry.consult_run_of_verdict (hlike.hook ▸ hverdict)
  refine ⟨registry.shown fault last, ?_, fun _ _ => hlike.frame rfl rfl rfl rfl⟩
  have hrecover : (recover answers fault).run registry =
      some (if verdict = .recover && fault.isRecoverable then .ok () else .error fault,
        registry.shown fault last) := by
    rw [recover, Attempt.run_bind_ok (Attempt.run_lift hconsult)]
    split <;> rfl
  split at hrecover
  · next h => rw [if_pos h, orFalse, Attempt.run_bind_ok hrecover]; rfl
  · next h => rw [if_neg h, orFalse, Attempt.run_bind_error hrecover]

/-- A hook that gives a fault the same answer each time, and changes nothing that an evaluation
reads. -/
def Registry.Steady (answers : Answers σ) (base : Registry σ) : Prop :=
  ∀ fault, (orFalse answers fault).Determined base

theorem Registry.steady_of_raises (h : Raises answers base.hook) : base.Steady answers :=
  fun fault => ⟨.error fault, orFalse_computes h fault⟩

/-- The outcome of every test is fixed by what faults come to. -/
theorem Registry.Steady.compositional (hsteady : base.Steady answers) (htests : PureTests base)
    (hnames : GrouplessNames base) :
    Attempt.Compositional answers (Attempt.Determined base) where
  pure result := ⟨_, Attempt.computes_pure base result⟩
  bind := Attempt.Determined.bind
  resolve {follow} hfollow name v := by
    choose answer hanswer using hsteady
    choose follows hfollows using hfollow
    exact ⟨_, Registry.resolve_computes hanswer htests hfollows name v⟩
  cyclic name := hsteady _
  compile hnext source := by
    choose outcomes houtcomes using hnext
    exact ⟨_, Registry.compileStep_computes hnames houtcomes source⟩
  settings {_ next} hnext := by
    obtain ⟨outcome, houtcome⟩ := hnext base.options.maxAliasDepth
    refine ⟨outcome, fun registry hlike => ?_⟩
    rw [Attempt.run_get_bind, hlike.options]
    exact houtcome registry hlike

/-- The outcome of every test is fixed, if the hook asks nothing and its verdicts are fixed. -/
theorem determined_compositional (hbase : base.Unattended) (htests : PureTests base)
    (hnames : GrouplessNames base) (hhook : Registry.Resolute answers base.hook) :
    Attempt.Compositional answers (Attempt.Determined base) :=
  Registry.Steady.compositional (Registry.orFalse_determined hbase hhook) htests hnames

end

namespace Attempt

variable {base registry other : Registry σ} {attempts : List (Attempt σ α)}
  {outcome : Except Fault α}

/-- A determined attempt has the same outcome wherever it is run. -/
theorem Determined.run_iff {attempt : Attempt σ α} (h : attempt.Determined base)
    (hregistry : base.ReadsLike registry) (hother : base.ReadsLike other) :
    (∃ after, attempt.run registry = some (outcome, after)) ↔
      ∃ after, attempt.run other = some (outcome, after) := by
  obtain ⟨fixed, hfixed⟩ := h
  obtain ⟨after, hrun, _⟩ := hfixed registry hregistry
  obtain ⟨otherAfter, hotherRun, _⟩ := hfixed other hother
  simp only [hrun, hotherRun, Option.some.injEq, Prod.mk.injEq, exists_and_left, exists_eq',
    and_true]

/-- An attempt that is determined computes the outcome that it has once. -/
theorem Determined.computes {attempt : Attempt σ α} (h : attempt.Determined base)
    (hregistry : base.ReadsLike registry) {after : Registry σ}
    (hrun : attempt.run registry = some (outcome, after)) : attempt.Computes base outcome := by
  obtain ⟨fixed, hfixed⟩ := h
  obtain ⟨fixedAfter, hfixedRun, _⟩ := hfixed registry hregistry
  rw [hrun] at hfixedRun
  cases hfixedRun
  exact hfixed

theorem Determined.readsLike {attempt : Attempt σ α} (h : attempt.Determined base)
    (hregistry : base.ReadsLike registry) {result : α} {after : Registry σ}
    (hrun : attempt.run registry = some (.ok result, after)) : base.ReadsLike after := by
  obtain ⟨fixedAfter, hfixedRun, hlike⟩ := h.computes hregistry hrun registry hregistry
  rw [hrun] at hfixedRun
  cases hfixedRun
  exact hlike result rfl

/-- The attempt at a position, run by itself, has this outcome. -/
def ByItself (attempts : List (Attempt σ α)) (registry : Registry σ) (position : Nat)
    (outcome : Except Fault α) : Prop :=
  ∃ attempt after, attempts[position]? = some attempt ∧
    attempt.run registry = some (outcome, after)

theorem byItself_cons_zero {attempt : Attempt σ α} {rest : List (Attempt σ α)} :
    ByItself (attempt :: rest) registry 0 outcome ↔
      ∃ after, attempt.run registry = some (outcome, after) := by
  simp [ByItself]

/-- Determined attempts succeed in turn with one result if each does by itself. -/
theorem inTurn_replicate_iff (hattempts : ∀ attempt ∈ attempts, attempt.Determined base)
    (hregistry : base.ReadsLike registry) (hother : base.ReadsLike other) {result : α} :
    (∃ after, InTurn attempts registry (List.replicate attempts.length result) after) ↔
      ∀ position < attempts.length, ByItself attempts other position (.ok result) := by
  induction attempts generalizing registry with
  | nil => simp [inTurn_nil_iff]
  | cons attempt rest ih =>
      obtain ⟨hfirst, hrest⟩ := List.forall_mem_cons.mp hattempts
      rw [List.length_cons, Nat.forall_lt_succ_left, byItself_cons_zero,
        ← hfirst.run_iff hregistry hother]
      constructor
      · rintro ⟨after, _ | ⟨hrun, hothers⟩⟩
        exact ⟨⟨_, hrun⟩, (ih hrest (hfirst.readsLike hregistry hrun)).mp ⟨after, hothers⟩⟩
      · rintro ⟨⟨middle, hrun⟩, hothers⟩
        obtain ⟨after, hothers⟩ := (ih hrest (hfirst.readsLike hregistry hrun)).mpr hothers
        exact ⟨after, .cons hrun hothers⟩

/-- Determined attempts come to an outcome in turn if each comes to its own by itself. -/
theorem reaches_replicate_iff (hattempts : ∀ attempt ∈ attempts, attempt.Determined base)
    (hregistry : base.ReadsLike registry) (hother : base.ReadsLike other) {count : Nat}
    {result : α} :
    (∃ after, Reaches attempts registry (List.replicate count result) outcome after) ↔
      (∀ position < count, ByItself attempts other position (.ok result)) ∧
        ByItself attempts other count outcome := by
  -- in turn each attempt meets another registry, but all of them read like `base`
  induction attempts generalizing registry count with
  | nil => simp [not_reaches_nil, ByItself]
  | cons attempt rest ih =>
      obtain ⟨hfirst, hrest⟩ := List.forall_mem_cons.mp hattempts
      cases count with
      | zero =>
          rw [byItself_cons_zero, ← hfirst.run_iff hregistry hother]
          simp [reaches_cons_iff]
      | succ count =>
          rw [Nat.forall_lt_succ_left, byItself_cons_zero, ← hfirst.run_iff hregistry hother]
          constructor
          · rintro ⟨after, _ | ⟨hrun, hreaches⟩⟩
            obtain ⟨hbefore, hlast⟩ :=
              (ih hrest (hfirst.readsLike hregistry hrun)).mp ⟨after, hreaches⟩
            exact ⟨⟨⟨_, hrun⟩, hbefore⟩, hlast⟩
          · rintro ⟨⟨⟨middle, hrun⟩, hbefore⟩, hlast⟩
            obtain ⟨after, hreaches⟩ :=
              (ih hrest (hfirst.readsLike hregistry hrun)).mpr ⟨hbefore, hlast⟩
            exact ⟨after, .later hrun hreaches⟩

end Attempt

end Switchboard
