import Switchboard.Proofs.Registry.Aliases
import Switchboard.Proofs.Registry.Outcome
import Switchboard.Proofs.Registry.Unattended

/-!
What expressions are true of under a hook that recovers. An unknown name is false there, and
so is an alias beyond the allowed hops; with pure tests an evaluation never fails, and its
result is plain Boolean truth. The truth of an alias is that of the tree its text compiles to.
A text that an evaluation compiles stays in the cache, so the trees that it has used can be
read off the registry that it leaves, or off any later one.
-/

namespace Switchboard

variable {σ α β : Type}

/-- The truth of a tree on a value, given what each name is true of. -/
def Expr.truthWith (holds : String → Value → Bool) : Expr → Value → Bool
  | .named name, v => holds name v
  | .or left right, v => left.truthWith holds v || right.truthWith holds v
  | .and left right, v => left.truthWith holds v && right.truthWith holds v
  | .not inner, v => !inner.truthWith holds v
  | .arrayOf inner, v =>
      match v with
      | .array items => items.all (inner.truthWith holds)
      | _ => false

namespace Registry

/-- What a name is true of, given what the text of an alias is true of. -/
def nameTruth (registry : Registry σ) (follow : String → Value → Bool) (name : String)
    (v : Value) : Bool :=
  match Table.get? name registry.bindings with
  | none => false
  | some (.test test) => test.holds v
  | some (.alias source) => follow source v

/-- What a tree is true of with a number of alias hops left. -/
def truth (registry : Registry σ) : Nat → Expr → Value → Bool
  | 0 => Expr.truthWith (registry.nameTruth fun _ _ => false)
  | hops + 1 => Expr.truthWith (registry.nameTruth fun source =>
      registry.truth hops (registry.reading source))

/-- Truth is a matter of bindings and readings. -/
theorem truth_congr {registry after : Registry σ} (hbindings : after.bindings = registry.bindings)
    (hreading : ∀ source, after.reading source = registry.reading source) (hops : Nat) :
    after.truth hops = registry.truth hops := by
  have hname : after.nameTruth = registry.nameTruth := by
    funext follow name v
    rw [nameTruth, nameTruth, hbindings]
  induction hops with
  | zero => rw [truth, truth, hname]
  | succ hops ih => simp only [truth, hname, hreading, ih]

/-- The settings, the bindings and the hook are the same, and no tree has left the cache. -/
structure Onward (registry after : Registry σ) : Prop where
  framed : registry.Framed after
  kept : ∀ source parsed, registry.cache.get? source = some parsed →
    after.cache.get? source = some parsed

theorem Onward.refl (registry : Registry σ) : registry.Onward registry :=
  ⟨.refl registry, fun _ _ h => h⟩

theorem Onward.trans {registry middle after : Registry σ} (hfirst : registry.Onward middle)
    (hsecond : middle.Onward after) : registry.Onward after :=
  ⟨hfirst.framed.trans hsecond.framed,
    fun source parsed h => hsecond.kept source parsed (hfirst.kept source parsed h)⟩

theorem onward_shown (registry : Registry σ) (fault : Fault) (state : σ) :
    registry.Onward (registry.shown fault state) :=
  ⟨framed_shown registry fault state, fun _ _ h => h⟩

theorem onward_compile (registry : Registry σ) (source : String) :
    registry.Onward (registry.compile source).2 :=
  ⟨⟨rfl, rfl, rfl⟩, fun _ _ h => Cache.get?_compile_of_cached h registry.contains source⟩

/-- A text that has been compiled reads from then on as it did. -/
theorem Onward.reading_compile {registry later : Registry σ} {source : String}
    (h : (registry.compile source).2.Onward later) :
    later.reading source = registry.reading source :=
  reading_of_cached (h.kept source _
    (Cache.get?_compile_self registry.contains source registry.cache))

/-- A registry with pure tests and a hook that recovers, which leaves it alone. -/
structure Forgiving (answers : Answers σ) (registry : Registry σ) : Prop where
  tests : PureTests registry
  aloof : ∀ fault, (registry.hook fault).Aloof
  recovers : Recovers answers registry.hook

theorem Forgiving.unattended {answers : Answers σ} {registry : Registry σ}
    (h : registry.Forgiving answers) : registry.Unattended :=
  unattended_of_pureTests h.tests h.aloof

theorem Forgiving.framed {answers : Answers σ} {registry after : Registry σ}
    (h : registry.Forgiving answers) (hframed : registry.Framed after) :
    after.Forgiving answers where
  tests := h.tests.framed hframed
  aloof := hframed.hook ▸ h.aloof
  recovers := hframed.hook ▸ h.recovers

end Registry

open Registry (Onward Forgiving)

/-- An attempt that succeeds under a hook that recovers, with the result that every registry
from then on says it has. -/
def Attempt.Means (answers : Answers σ) (attempt : Attempt σ α) (meaning : Registry σ → α) :
    Prop :=
  ∀ registry : Registry σ, registry.Forgiving answers → ∃ result after,
    attempt.run registry = some (.ok result, after) ∧ registry.Onward after ∧
      ∀ later, after.Onward later → result = meaning later

section

variable {answers : Answers σ}

theorem Attempt.means_pure (result : α) :
    Attempt.Means answers (pure result : Attempt σ α) fun _ => result :=
  fun registry _ => ⟨result, registry, rfl, .refl registry, fun _ _ => rfl⟩

theorem Attempt.Means.congr {attempt : Attempt σ α} {meaning other : Registry σ → α}
    (h : attempt.Means answers meaning) (heq : ∀ later, meaning later = other later) :
    attempt.Means answers other := by
  rwa [← funext heq]

theorem Attempt.Means.bind {attempt : Attempt σ α} {next : α → Attempt σ β}
    {meaning : Registry σ → α} {meanings : α → Registry σ → β}
    (hattempt : attempt.Means answers meaning)
    (hnext : ∀ result, (next result).Means answers (meanings result)) :
    (attempt >>= next).Means answers fun later => meanings (meaning later) later := by
  intro registry hregistry
  obtain ⟨first, middle, hfirst, honward, hmeaning⟩ := hattempt registry hregistry
  obtain ⟨result, after, hrun, honward', hmeaning'⟩ :=
    hnext first middle (hregistry.framed honward.framed)
  refine ⟨result, after, (Attempt.run_bind_ok hfirst).trans hrun, honward.trans honward',
    fun later hlater => ?_⟩
  -- a registry after both parts comes after the first part too
  simpa only [hmeaning later (honward'.trans hlater)] using hmeaning' later hlater

/-- An attempt that goes on if a first one does not decide it. -/
theorem Attempt.Means.ite {attempt first second : Attempt σ Bool}
    {meaning meaning₁ meaning₂ : Registry σ → Bool} (h : attempt.Means answers meaning)
    (hfirst : first.Means answers meaning₁) (hsecond : second.Means answers meaning₂) :
    (attempt >>= fun passed => if passed then first else second).Means answers fun later =>
      bif meaning later then meaning₁ later else meaning₂ later := by
  have hnext (passed : Bool) : (if passed then first else second).Means answers fun later =>
      bif passed then meaning₁ later else meaning₂ later := by
    cases passed with
    | true => exact hfirst
    | false => exact hsecond
  exact h.bind hnext

theorem allPass_means {passes : Value → Attempt σ Bool} {holds : Registry σ → Value → Bool}
    (h : ∀ v, (passes v).Means answers fun later => holds later v) (items : List Value) :
    (allPass passes items).Means answers fun later => items.all (holds later) := by
  induction items with
  | nil => exact Attempt.means_pure true
  | cons v rest ih =>
      refine ((h v).ite ih (Attempt.means_pure false)).congr fun later => ?_
      rw [List.all_cons]
      cases holds later v <;> rfl

theorem Expr.evaluateWith_means {resolve : String → Value → Attempt σ Bool}
    {holds : Registry σ → String → Value → Bool}
    (h : ∀ name v, (resolve name v).Means answers fun later => holds later name v) (tree : Expr)
    (v : Value) :
    (tree.evaluateWith resolve v).Means answers fun later => tree.truthWith (holds later) v := by
  induction tree generalizing v with
  | named name => exact h name v
  | or left right ihl ihr =>
      refine ((ihl v).ite (Attempt.means_pure true) (ihr v)).congr fun later => ?_
      rw [truthWith]
      cases left.truthWith (holds later) v <;> rfl
  | and left right ihl ihr =>
      refine ((ihl v).ite (ihr v) (Attempt.means_pure false)).congr fun later => ?_
      rw [truthWith]
      cases left.truthWith (holds later) v <;> rfl
  | not inner ih => exact (ih v).bind fun passed => Attempt.means_pure !passed
  | arrayOf inner ih =>
      cases v with
      | array items => exact allPass_means ih items
      | _ => exact Attempt.means_pure false

namespace Registry

theorem orFalse_means {fault : Fault} (h : fault.isRecoverable = true) :
    (orFalse answers fault).Means answers fun _ => false := by
  intro registry hregistry
  obtain ⟨last, hrun⟩ :=
    hregistry.unattended.recover_run_of_recovers hregistry.recovers h
  exact ⟨false, _, Attempt.run_bind_ok hrun, onward_shown registry fault last, fun _ _ => rfl⟩

theorem resolve_means {follow : String → String → Value → Attempt σ Bool}
    {follows : Registry σ → String → Value → Bool}
    (h : ∀ name source v, (follow name source v).Means answers fun later => follows later source v)
    (name : String) (v : Value) :
    (resolve answers follow name v).Means answers
      fun later => later.nameTruth (follows later) name v := by
  intro registry hregistry
  have htruth {after later : Registry σ} (honward : registry.Onward after)
      (hlater : after.Onward later) : later.bindings = registry.bindings :=
    (honward.trans hlater).framed.bindings
  rw [resolve_run]
  rcases hbinding : Table.get? name registry.bindings with _ | test | source
  · obtain ⟨result, after, hrun, honward, hmeaning⟩ :=
      orFalse_means (rfl : (Fault.unknownType name).isRecoverable = true) registry hregistry
    refine ⟨result, after, hrun, honward, fun later hlater => ?_⟩
    simpa only [nameTruth, htruth honward hlater, hbinding] using hmeaning later hlater
  · refine ⟨test.holds v, registry,
      Attempt.run_lift (hregistry.tests.check_run hbinding answers v registry), .refl registry,
      fun later hlater => ?_⟩
    simp only [nameTruth, htruth (.refl registry) hlater, hbinding]
  · obtain ⟨result, after, hrun, honward, hmeaning⟩ := h name source v registry hregistry
    refine ⟨result, after, hrun, honward, fun later hlater => ?_⟩
    simpa only [nameTruth, htruth honward hlater, hbinding] using hmeaning later hlater

/-- What is done with the tree of a text is done with what the text reads as from then on. -/
theorem compileStep_means {next : Expr → Attempt σ α} {meanings : Expr → Registry σ → α}
    (h : ∀ tree, (next tree).Means answers (meanings tree)) (source : String) :
    Attempt.Means answers (do
      let parsed ← (compileStep source : Run σ Parsed)
      next parsed.tree) fun later => meanings (later.reading source) later := by
  intro registry hregistry
  have hcompile := onward_compile registry source
  obtain ⟨result, after, hrun, honward, hmeaning⟩ :=
    h (registry.reading source) _ (hregistry.framed hcompile.framed)
  refine ⟨result, after, hrun, hcompile.trans honward, fun later hlater => ?_⟩
  simpa only [(honward.trans hlater).reading_compile] using hmeaning later hlater

/-- An evaluation means the truth of its tree. -/
theorem evaluateFrom_means (hops : Nat) (tree : Expr) (v : Value) :
    (evaluateFrom answers hops tree v).Means answers fun later => later.truth hops tree v := by
  induction hops generalizing tree v with
  | zero =>
      refine Expr.evaluateWith_means (fun name v => ?_) tree v
      exact resolve_means (fun name _ _ => orFalse_means rfl) name v
  | succ hops ih =>
      refine Expr.evaluateWith_means (fun name v => ?_) tree v
      exact resolve_means (fun _ source v => compileStep_means (fun tree => ih tree v) source)
        name v

theorem evaluateTree_means (tree : Expr) (v : Value) :
    (evaluateTree answers tree v).Means answers
      fun later => later.truth later.options.maxAliasDepth tree v := by
  intro registry hregistry
  obtain ⟨result, after, hrun, honward, hmeaning⟩ :=
    evaluateFrom_means registry.options.maxAliasDepth tree v registry hregistry
  refine ⟨result, after, hrun, honward, fun later hlater => ?_⟩
  simpa only [(honward.trans hlater).framed.options] using hmeaning later hlater

/-- With pure tests and a hook that recovers, an evaluation ends with the truth of what its
text reads as. -/
theorem evaluate_means (source : String) (v : Value) :
    (evaluate answers source v).Means answers fun later =>
      later.truth later.options.maxAliasDepth (later.reading source) v :=
  compileStep_means (fun tree => evaluateTree_means tree v) source

end Registry

end

end Switchboard
