import Switchboard.Proofs.Registry.Aliases

/-!
Evaluation as a function. With tests that look at nothing but their value, an evaluation
changes a registry only in its cache, and never what a text reads as; so its result is a
function of the tree, the value and the bindings. What a fault comes to is the hook's
answer, which is a parameter: a raising hook answers with the fault itself.
-/

namespace Switchboard

variable {σ α β : Type}

/-- Whether a test accepts a value, if it looks at nothing else. -/
def Test.holds : Test σ → Value → Bool
  | .kinds accepted, v => accepted.contains v.kind
  | .custom body, v =>
      match body v with
      | .done result => result
      | _ => false

/-- Whether all values of a list hold, up to the first that does not. -/
def allHold (holds : Value → Except Fault Bool) : List Value → Except Fault Bool
  | [] => return true
  | v :: rest => do
      if ← holds v then allHold holds rest else return false

/-- The outcome of a tree on a value, given the outcome of each name. -/
def Expr.outcomeWith (resolve : String → Value → Except Fault Bool) :
    Expr → Value → Except Fault Bool
  | .named name, v => resolve name v
  | .or left right, v => do
      if ← left.outcomeWith resolve v then return true else right.outcomeWith resolve v
  | .and left right, v => do
      if ← left.outcomeWith resolve v then right.outcomeWith resolve v else return false
  | .not inner, v => do
      return !(← inner.outcomeWith resolve v)
  | .arrayOf inner, v =>
      match v with
      | .array items => allHold (inner.outcomeWith resolve) items
      | _ => return false

/-- A fault comes from the first part or, if that has a result, from the second. -/
theorem bind_eq_error_iff {outcome : Except Fault α} {next : α → Except Fault β} {fault : Fault} :
    (outcome >>= next) = .error fault ↔
      outcome = .error fault ∨ ∃ result, outcome = .ok result ∧ next result = .error fault := by
  cases outcome with
  | error other => simp [bind, Except.bind]
  | ok result => simp [bind, Except.bind]

theorem exists_of_allHold_error {holds : Value → Except Fault Bool} {items : List Value}
    {fault : Fault} (h : allHold holds items = .error fault) :
    ∃ v ∈ items, holds v = .error fault := by
  induction items with
  | nil => cases h
  | cons v rest ih =>
      rcases bind_eq_error_iff.mp h with hv | ⟨passed, _, hrest⟩
      · exact ⟨v, List.mem_cons_self, hv⟩
      · split at hrest
        · obtain ⟨w, hw, hfault⟩ := ih hrest
          exact ⟨w, List.mem_cons_of_mem v hw, hfault⟩
        · cases hrest

/-- A fault of a tree is the fault of one of its names. -/
theorem Expr.exists_of_outcomeWith_error {resolve : String → Value → Except Fault Bool}
    {tree : Expr} {v : Value} {fault : Fault} (h : tree.outcomeWith resolve v = .error fault) :
    ∃ name ∈ tree.names, ∃ w, resolve name w = .error fault := by
  induction tree generalizing v with
  | named name => exact ⟨name, List.mem_singleton_self name, v, h⟩
  | or left right ihl ihr =>
      rcases bind_eq_error_iff.mp h with hleft | ⟨passed, _, hright⟩
      · obtain ⟨name, hname, hfault⟩ := ihl hleft
        exact ⟨name, List.mem_append_left _ hname, hfault⟩
      · split at hright
        · cases hright
        · obtain ⟨name, hname, hfault⟩ := ihr hright
          exact ⟨name, List.mem_append_right _ hname, hfault⟩
  | and left right ihl ihr =>
      rcases bind_eq_error_iff.mp h with hleft | ⟨passed, _, hright⟩
      · obtain ⟨name, hname, hfault⟩ := ihl hleft
        exact ⟨name, List.mem_append_left _ hname, hfault⟩
      · split at hright
        · obtain ⟨name, hname, hfault⟩ := ihr hright
          exact ⟨name, List.mem_append_right _ hname, hfault⟩
        · cases hright
  | not inner ih =>
      rcases bind_eq_error_iff.mp h with hinner | ⟨passed, _, hnegated⟩
      · exact ih hinner
      · cases hnegated
  | arrayOf inner ih =>
      cases v with
      | array items =>
          obtain ⟨w, _, hfault⟩ := exists_of_allHold_error h
          exact ih hfault
      | _ => cases h

namespace Registry

/-- The outcome of a name on a value, given what a fault comes to and the outcome of an
alias. -/
def nameOutcome (registry : Registry σ) (answer : Fault → Except Fault Bool)
    (follow : String → String → Value → Except Fault Bool) (name : String) (v : Value) :
    Except Fault Bool :=
  match Table.get? name registry.bindings with
  | none => answer (.unknownType name)
  | some (.test test) => .ok (test.holds v)
  | some (.alias source) => follow name source v

/-- The outcome of a tree on a value with a number of alias hops left. -/
def outcomeFrom (registry : Registry σ) (answer : Fault → Except Fault Bool) :
    Nat → Expr → Value → Except Fault Bool
  | 0 => Expr.outcomeWith (registry.nameOutcome answer fun name _ _ => answer (.cyclicType name))
  | hops + 1 => Expr.outcomeWith (registry.nameOutcome answer fun _ source v =>
      registry.outcomeFrom answer hops (registry.reading source) v)

/-- The outcome of an alias, given its name and its text, with a number of hops left. -/
def aliasOutcome (registry : Registry σ) (answer : Fault → Except Fault Bool) :
    Nat → String → String → Value → Except Fault Bool
  | 0 => fun name _ _ => answer (.cyclicType name)
  | hops + 1 => fun _ source v => registry.outcomeFrom answer hops (registry.reading source) v

theorem outcomeFrom_eq (registry : Registry σ) (answer : Fault → Except Fault Bool) (hops : Nat) :
    registry.outcomeFrom answer hops =
      Expr.outcomeWith (registry.nameOutcome answer (registry.aliasOutcome answer hops)) := by
  cases hops <;> rfl

/-- A registry with the settings, bindings, hook and readings of another. -/
structure ReadsLike (base registry : Registry σ) : Prop where
  options : registry.options = base.options
  bindings : registry.bindings = base.bindings
  hook : registry.hook = base.hook
  reading : ∀ source, registry.reading source = base.reading source

theorem ReadsLike.refl (registry : Registry σ) : registry.ReadsLike registry :=
  ⟨rfl, rfl, rfl, fun _ => rfl⟩

theorem ReadsLike.compile {base registry : Registry σ} (h : base.ReadsLike registry)
    (hnames : GrouplessNames base) (source : String) :
    base.ReadsLike (registry.compile source).2 where
  options := h.options
  bindings := h.bindings
  hook := h.hook
  reading other := by
    have hcontains := contains_congr h.bindings
    have hgroupless : GrouplessNames registry := by
      rwa [GrouplessNames, hcontains]
    rw [reading_compile hgroupless, h.reading]

theorem ReadsLike.frame {base registry after : Registry σ} (h : base.ReadsLike registry)
    (hoptions : after.options = registry.options) (hbindings : after.bindings = registry.bindings)
    (hhook : after.hook = registry.hook) (hcache : after.cache = registry.cache) :
    base.ReadsLike after where
  options := by rw [hoptions, h.options]
  bindings := by rw [hbindings, h.bindings]
  hook := by rw [hhook, h.hook]
  reading source := by rw [reading_congr hbindings hcache, h.reading]

end Registry

open Registry (ReadsLike GrouplessNames PureTests Raises)

/-- An attempt that has this outcome on every registry that reads like `base`, and leaves
such a registry if it succeeds. -/
def Attempt.Computes (base : Registry σ) (attempt : Attempt σ α) (outcome : Except Fault α) :
    Prop :=
  ∀ registry, base.ReadsLike registry → ∃ after, attempt.run registry = some (outcome, after) ∧
    ∀ result, outcome = .ok result → base.ReadsLike after

theorem Attempt.computes_pure (base : Registry σ) (result : α) :
    Attempt.Computes base (pure result : Attempt σ α) (.ok result) :=
  fun registry h => ⟨registry, rfl, fun _ _ => h⟩

theorem Attempt.Computes.bind {base : Registry σ} {attempt : Attempt σ α} {next : α → Attempt σ β}
    {outcome : Except Fault α} {outcomes : α → Except Fault β}
    (hattempt : attempt.Computes base outcome)
    (hnext : ∀ result, (next result).Computes base (outcomes result)) :
    (attempt >>= next).Computes base (outcome >>= outcomes) := by
  intro registry h
  obtain ⟨after, hrun, hafter⟩ := hattempt registry h
  cases outcome with
  | error fault =>
      refine ⟨after, Attempt.run_bind_error hrun, ?_⟩
      intro result heq
      cases heq
  | ok result =>
      rw [Attempt.run_bind_ok hrun]
      exact hnext result after (hafter result rfl)

theorem allPass_computes {base : Registry σ} {passes : Value → Attempt σ Bool}
    {holds : Value → Except Fault Bool} (h : ∀ v, (passes v).Computes base (holds v))
    (items : List Value) : (allPass passes items).Computes base (allHold holds items) := by
  induction items with
  | nil => exact Attempt.computes_pure base true
  | cons v rest ih =>
      refine (h v).bind fun passed => ?_
      split
      · exact ih
      · exact Attempt.computes_pure base false

theorem Expr.evaluateWith_computes {base : Registry σ}
    {resolve : String → Value → Attempt σ Bool} {outcomes : String → Value → Except Fault Bool}
    (h : ∀ name v, (resolve name v).Computes base (outcomes name v)) (tree : Expr) (v : Value) :
    (tree.evaluateWith resolve v).Computes base (tree.outcomeWith outcomes v) := by
  induction tree generalizing v with
  | named name => exact h name v
  | or left right ihl ihr =>
      refine (ihl v).bind fun passed => ?_
      split
      · exact Attempt.computes_pure base true
      · exact ihr v
  | and left right ihl ihr =>
      refine (ihl v).bind fun passed => ?_
      split
      · exact ihr v
      · exact Attempt.computes_pure base false
  | not inner ih => exact (ih v).bind fun _ => Attempt.computes_pure base _
  | arrayOf inner ih =>
      cases v with
      | array items => exact allPass_computes ih items
      | _ => exact Attempt.computes_pure base false

namespace Registry

variable {base : Registry σ} {answers : Answers σ} {answer : Fault → Except Fault Bool}

theorem orFalse_computes (h : Raises answers base.hook) (fault : Fault) :
    (orFalse answers fault).Computes base (.error fault) := by
  intro registry hlike
  obtain ⟨after, hrun⟩ := orFalse_run (hlike.hook ▸ h) fault
  refine ⟨after, hrun, ?_⟩
  intro result heq
  cases heq

theorem resolve_computes (hfault : ∀ fault, (orFalse answers fault).Computes base (answer fault))
    (htests : PureTests base) {follow : String → String → Value → Attempt σ Bool}
    {follows : String → String → Value → Except Fault Bool}
    (h : ∀ name source v, (follow name source v).Computes base (follows name source v))
    (name : String) (v : Value) :
    (resolve answers follow name v).Computes base (base.nameOutcome answer follows name v) := by
  intro registry hlike
  rw [resolve, Attempt.run_get_bind, nameOutcome, hlike.bindings]
  cases hbinding : Table.get? name base.bindings with
  | none => exact hfault _ registry hlike
  | some binding =>
      cases binding with
      | «alias» source => exact h name source v registry hlike
      | test test =>
          cases test with
          | kinds accepted => exact ⟨registry, rfl, fun _ _ => hlike⟩
          | custom body =>
              obtain ⟨result, hbody⟩ := htests name body hbinding v
              simp only [Test.check, Test.holds, hbody]
              exact ⟨registry, rfl, fun _ _ => hlike⟩

/-- What is done with a compiled text is done with its reading. -/
theorem compileStep_computes (hnames : GrouplessNames base) {next : Expr → Attempt σ α}
    {outcomes : Expr → Except Fault α} (h : ∀ tree, (next tree).Computes base (outcomes tree))
    (source : String) : Attempt.Computes base (do
      let parsed ← (compileStep source : Run σ Parsed)
      next parsed.tree) (outcomes (base.reading source)) := by
  intro registry hlike
  rw [← hlike.reading source]
  exact h (registry.reading source) _ (hlike.compile hnames source)

/-- An evaluation ends as its outcome says, for every hook whose answers are known. -/
theorem evaluateFrom_computes
    (hfault : ∀ fault, (orFalse answers fault).Computes base (answer fault))
    (htests : PureTests base) (hnames : GrouplessNames base) (hops : Nat) (tree : Expr)
    (v : Value) :
    (evaluateFrom answers hops tree v).Computes base (base.outcomeFrom answer hops tree v) := by
  induction hops generalizing tree v with
  | zero =>
      apply Expr.evaluateWith_computes
      apply resolve_computes hfault htests
      intro name source v
      exact hfault _
  | succ hops ih =>
      apply Expr.evaluateWith_computes
      apply resolve_computes hfault htests
      intro name source v
      exact compileStep_computes hnames (fun tree => ih tree v) source

theorem evaluateTree_computes
    (hfault : ∀ fault, (orFalse answers fault).Computes base (answer fault))
    (htests : PureTests base) (hnames : GrouplessNames base) (tree : Expr) (v : Value) :
    (evaluateTree answers tree v).Computes base
      (base.outcomeFrom answer base.options.maxAliasDepth tree v) := by
  intro registry hlike
  rw [evaluateTree, Attempt.run_get_bind, hlike.options]
  exact evaluateFrom_computes hfault htests hnames _ tree v registry hlike

theorem evaluate_computes
    (hfault : ∀ fault, (orFalse answers fault).Computes base (answer fault))
    (htests : PureTests base) (hnames : GrouplessNames base) (source : String) (v : Value) :
    (evaluate answers source v).Computes base
      (base.outcomeFrom answer base.options.maxAliasDepth (base.reading source) v) :=
  compileStep_computes hnames (fun tree => evaluateTree_computes hfault htests hnames tree v) source

end Registry

end Switchboard
