import Switchboard.Proofs.Registry.Meaning
import Switchboard.Proofs.Registry.Precedence

/-!
Registries that differ in their caches only. Two registries are alike if they have the
same settings and bindings, pure tests, hooks that raise every fault, and caches with
faithful entries. Alike registries return equal trees, and an evaluation keeps them
alike until it ends or meets a fault; so it ends in the same way on both, and on a
registry with an empty cache.
-/

namespace Switchboard

variable {σ α β : Type}

open Switchboard.Parser (keywords)

namespace Registry

/-- A hook that raises every fault, whatever else it does. -/
def Raises (answers : Answers σ) (hook : Hook σ) : Prop :=
  ∀ fault registry, ∃ after, (hook fault).runClosed answers registry = some (.raise, after)

/-- Tests that look at nothing but their value. -/
def PureTests (registry : Registry σ) : Prop :=
  ∀ name body, Table.get? name registry.bindings = some (.test (.custom body)) →
    ∀ v, ∃ result, body v = .done result

/-- Registries between which only the cache, the state and the hook can differ. -/
structure Alike (answers : Answers σ) (left right : Registry σ) : Prop where
  options : left.options = right.options
  bindings : ∀ name, Table.get? name left.bindings = Table.get? name right.bindings
  names : GrouplessNames left
  tests : PureTests left
  raisesLeft : Raises answers left.hook
  raisesRight : Raises answers right.hook
  faithfulLeft : Faithful left
  faithfulRight : Faithful right

theorem contains_eq_of_bindings {left right : Registry σ}
    (h : ∀ name, Table.get? name left.bindings = Table.get? name right.bindings) :
    left.contains = right.contains := by
  funext name
  rw [contains, contains, Table.contains, Table.contains, h]

theorem Alike.compile {answers : Answers σ} {left right : Registry σ}
    (h : Alike answers left right) (source : String) :
    Alike answers (left.compile source).2 (right.compile source).2 where
  options := h.options
  bindings := h.bindings
  names := h.names
  tests := h.tests
  raisesLeft := h.raisesLeft
  raisesRight := h.raisesRight
  faithfulLeft := h.faithfulLeft.compile h.names source
  faithfulRight := by
    apply h.faithfulRight.compile
    intro name hname
    rw [← contains_eq_of_bindings h.bindings] at hname
    exact h.names name hname

theorem Alike.tree_compile {answers : Answers σ} {left right : Registry σ}
    (h : Alike answers left right) (source : String) :
    (left.compile source).1.tree = (right.compile source).1.tree := by
  have hcontains := contains_eq_of_bindings h.bindings
  have hnames : GrouplessNames right := by
    intro name hname
    rw [← hcontains] at hname
    exact h.names name hname
  rw [h.faithfulLeft.tree_compile h.names, h.faithfulRight.tree_compile hnames, hcontains]

end Registry

open Registry (Alike)

/-- An attempt that ends in the same way on alike registries, and leaves them alike if it
succeeds. -/
def Attempt.Agrees (answers : Answers σ) (attempt : Attempt σ α) : Prop :=
  ∀ left right, Alike answers left right →
    ∃ outcome leftAfter rightAfter, attempt.run left = some (outcome, leftAfter) ∧
      attempt.run right = some (outcome, rightAfter) ∧
      ∀ result, outcome = .ok result → Alike answers leftAfter rightAfter

theorem Attempt.agrees_pure {answers : Answers σ} (result : α) :
    Attempt.Agrees answers (pure result : Attempt σ α) := by
  intro left right h
  exact ⟨.ok result, left, right, rfl, rfl, fun _ _ => h⟩

theorem Attempt.run_bind_ok {attempt : Attempt σ α} {next : α → Attempt σ β}
    {registry after : Registry σ} {result : α}
    (h : attempt.run registry = some (.ok result, after)) :
    (attempt >>= next).run registry = (next result).run after := by
  change (attempt.run registry).bind _ = _
  rw [h]
  rfl

theorem Attempt.run_bind_error {attempt : Attempt σ α} {next : α → Attempt σ β}
    {registry after : Registry σ} {fault : Fault}
    (h : attempt.run registry = some (.error fault, after)) :
    (attempt >>= next).run registry = some (.error fault, after) := by
  change (attempt.run registry).bind _ = _
  rw [h]
  rfl

/-- A fault of the first attempt ends both; else the second has the outcome. -/
theorem Attempt.run_bind_eq_some_iff {attempt : Attempt σ α} {next : α → Attempt σ β}
    {registry after : Registry σ} {outcome : Except Fault β} :
    (attempt >>= next).run registry = some (outcome, after) ↔
      (∃ fault, attempt.run registry = some (.error fault, after) ∧ outcome = .error fault) ∨
        ∃ result middle, attempt.run registry = some (.ok result, middle) ∧
          (next result).run middle = some (outcome, after) := by
  constructor
  · intro h
    obtain ⟨first, middle, hfirst, hsecond⟩ := Run.bind_eq_some_iff.mp h
    cases first with
    | error fault =>
        cases hsecond
        exact Or.inl ⟨fault, hfirst, rfl⟩
    | ok result => exact Or.inr ⟨result, middle, hfirst, hsecond⟩
  · rintro (⟨fault, hfault, rfl⟩ | ⟨result, middle, hfirst, hsecond⟩)
    · exact Attempt.run_bind_error hfault
    · rw [Attempt.run_bind_ok hfirst, hsecond]

theorem Attempt.run_pure_eq_some_iff {result : α} {registry after : Registry σ}
    {outcome : Except Fault α} :
    (pure result : Attempt σ α).run registry = some (outcome, after) ↔
      outcome = .ok result ∧ after = registry := by
  change some (Except.ok result, registry) = some (outcome, after) ↔ _
  rw [Option.some.injEq, Prod.mk.injEq]
  exact and_congr eq_comm eq_comm

theorem Attempt.Agrees.bind {answers : Answers σ} {attempt : Attempt σ α}
    {next : α → Attempt σ β} (hattempt : attempt.Agrees answers)
    (hnext : ∀ result, (next result).Agrees answers) : (attempt >>= next).Agrees answers := by
  intro left right h
  obtain ⟨outcome, leftAfter, rightAfter, hleft, hright, halike⟩ := hattempt left right h
  cases outcome with
  | error fault =>
      refine ⟨.error fault, leftAfter, rightAfter, Attempt.run_bind_error hleft,
        Attempt.run_bind_error hright, ?_⟩
      intro result heq
      cases heq
  | ok result =>
      rw [Attempt.run_bind_ok hleft, Attempt.run_bind_ok hright]
      exact hnext result leftAfter rightAfter (halike result rfl)

namespace Registry

/-- A fault ends the attempt, if the hook raises it. -/
theorem recover_run {answers : Answers σ} {registry : Registry σ}
    (h : Raises answers registry.hook) (fault : Fault) :
    ∃ after, (recover answers fault).run registry = some (.error fault, after) := by
  obtain ⟨after, hverdict⟩ :=
    h fault { registry with consulted := registry.consulted ++ [fault] }
  have hconsult : consult answers fault registry = some (.raise, after) := hverdict
  exact ⟨after, Attempt.run_bind_ok (Attempt.run_lift hconsult)⟩

theorem orFalse_run {answers : Answers σ} {registry : Registry σ}
    (h : Raises answers registry.hook) (fault : Fault) :
    ∃ after, (orFalse answers fault).run registry = some (.error fault, after) := by
  obtain ⟨after, hrecover⟩ := recover_run h fault
  exact ⟨after, Attempt.run_bind_error hrecover⟩

theorem orFalse_agrees (answers : Answers σ) (fault : Fault) :
    (orFalse answers fault).Agrees answers := by
  intro left right h
  obtain ⟨leftAfter, hleft⟩ := orFalse_run h.raisesLeft fault
  obtain ⟨rightAfter, hright⟩ := orFalse_run h.raisesRight fault
  refine ⟨.error fault, leftAfter, rightAfter, hleft, hright, ?_⟩
  intro result heq
  cases heq

/-- What a name, a text and the settings are to an evaluation is the same on both sides. -/
theorem agrees_compositional (answers : Answers σ) :
    Attempt.Compositional answers (Attempt.Agrees answers) where
  pure := Attempt.agrees_pure
  bind := Attempt.Agrees.bind
  resolve {follow} hfollow name v := by
    intro left right halike
    rw [resolve, Attempt.run_get_bind, Attempt.run_get_bind, ← halike.bindings name]
    cases hbinding : Table.get? name left.bindings with
    | none => exact orFalse_agrees answers _ left right halike
    | some binding =>
        cases binding with
        | «alias» source => exact hfollow name source v left right halike
        | test test =>
            cases test with
            | kinds accepted => exact ⟨_, left, right, rfl, rfl, fun _ _ => halike⟩
            | custom body =>
                obtain ⟨result, hbody⟩ := halike.tests name body hbinding v
                simp only [Test.check, hbody]
                exact ⟨.ok result, left, right, rfl, rfl, fun _ _ => halike⟩
  cyclic name := orFalse_agrees answers (.cyclicType name)
  compile {α next} hnext source := by
    intro left right halike
    have hrun (registry : Registry σ) : (do
        let parsed ← (compileStep source : Run σ Parsed)
        next parsed.tree : Attempt σ α).run registry =
        (next (registry.compile source).1.tree).run (registry.compile source).2 := rfl
    rw [hrun left, hrun right, ← halike.tree_compile source]
    exact hnext _ _ _ (halike.compile source)
  settings hnext := by
    intro left right halike
    rw [Attempt.run_get_bind, Attempt.run_get_bind, ← halike.options]
    exact hnext _ left right halike

theorem evaluate_agrees (answers : Answers σ) (source : String) (v : Value) :
    (evaluate answers source v).Agrees answers :=
  (agrees_compositional answers).evaluate source v

/-- The registry with an empty cache. -/
def forget (registry : Registry σ) : Registry σ :=
  { registry with cache := .empty }

theorem alike_forget {answers : Answers σ} {left right : Registry σ}
    (h : Alike answers left right) : Alike answers left left.forget where
  options := rfl
  bindings := fun _ => rfl
  names := h.names
  tests := h.tests
  raisesLeft := h.raisesLeft
  raisesRight := h.raisesLeft
  faithfulLeft := h.faithfulLeft
  faithfulRight := Cache.all_empty _

/-- Two registries with the same settings, bindings and hook cannot be told apart by what
they compile and evaluate, nor from a registry with an empty cache, if the hook raises
every fault, tests are pure, no name has a parenthesis, and no keyword has become a
name. -/
theorem cache_unobservable {answers : Answers σ} {options : Options} {first second : σ}
    {left right : Registry σ} (hleft : ReachableFrom options first left)
    (hright : ReachableFrom options second right)
    (hbindings : ∀ name, Table.get? name left.bindings = Table.get? name right.bindings)
    (hhook : left.hook = right.hook) (hraises : Raises answers left.hook)
    (htests : PureTests left)
    (hparens : ∀ name, left.contains name = true → '(' ∉ name.toList ∧ ')' ∉ name.toList)
    (hkeywords : ∀ name, name.toList ∈ keywords → left.contains name = true →
      (new options first).contains name = true) (source : String) :
    (left.compile source).1.tree = (right.compile source).1.tree ∧
      (left.compile source).1.tree = (left.forget.compile source).1.tree ∧
      ∀ v, ∃ outcome leftAfter rightAfter emptyAfter,
        (evaluate answers source v).run left = some (outcome, leftAfter) ∧
        (evaluate answers source v).run right = some (outcome, rightAfter) ∧
        (evaluate answers source v).run left.forget = some (outcome, emptyAfter) := by
  have hcontains : left.contains = right.contains := contains_eq_of_bindings hbindings
  have hnames : GrouplessNames left := fun name hname =>
    Groups.groupless_of_notMem (hparens name hname).1
  have halike : Alike answers left right := {
    options := by rw [hleft.options_eq, hright.options_eq]
    bindings := hbindings
    names := hnames
    tests := htests
    raisesLeft := hraises
    raisesRight := hhook ▸ hraises
    faithfulLeft := hleft.faithful hnames hkeywords
    faithfulRight := by
      apply hright.faithful
      · rwa [GrouplessNames, ← hcontains]
      · rw [← hcontains]
        exact hkeywords }
  have hempty : Alike answers left left.forget := alike_forget halike
  refine ⟨halike.tree_compile source, hempty.tree_compile source, ?_⟩
  intro v
  obtain ⟨outcome, leftAfter, rightAfter, hleftRun, hrightRun, _⟩ :=
    evaluate_agrees answers source v left right halike
  obtain ⟨other, again, emptyAfter, hagain, hemptyRun, _⟩ :=
    evaluate_agrees answers source v left left.forget hempty
  rw [hleftRun] at hagain
  cases hagain
  exact ⟨outcome, leftAfter, rightAfter, emptyAfter, hleftRun, hrightRun, hemptyRun⟩

theorem raises_raising (answers : Answers σ) : Raises answers raising :=
  fun _ registry => ⟨registry, rfl⟩

theorem mem_of_get? {α : Type} {key : String} {entry : α} {table : Table α}
    (h : Table.get? key table = some entry) : (key, entry) ∈ table := by
  induction table with
  | nil => cases h
  | cons head rest ih =>
      obtain ⟨k, old⟩ := head
      rw [Table.get?] at h
      split at h
      · next heq =>
          cases h
          rw [heq]
          exact List.mem_cons_self
      · exact List.mem_cons_of_mem _ (ih h)

theorem pureTests_new (options : Options) (state : σ) : PureTests (new options state) := by
  intro name body hbinding v
  rw [new] at hbinding
  dsimp only at hbinding
  split at hbinding
  · have hmem := mem_of_get? hbinding
    simp only [builtins, List.mem_cons, List.not_mem_nil, or_false, Prod.mk.injEq,
      Binding.test.injEq, Test.ofCondition, Test.custom.injEq, reduceCtorEq, and_false,
      false_or] at hmem
    rcases hmem with ⟨_, rfl⟩ | ⟨_, rfl⟩ | ⟨_, rfl⟩ <;> exact ⟨_, rfl⟩
  · cases hbinding

theorem PureTests.makeBinding {registry : Registry σ} (h : PureTests registry)
    (name : String) {binding : Binding σ} (hbinding : ∀ body, binding = .test (.custom body) →
      ∀ v, ∃ result, body v = .done result) : PureTests (registry.makeBinding name binding) := by
  intro other body hbound
  rw [bindings_makeBinding, Table.get?_insert] at hbound
  split at hbound
  · exact hbinding body (Option.some.inj hbound)
  · exact h other body hbound

/-- Two names that are bound in either order, in one of the registries behind a text that has
them in it: both registries read and answer alike. -/
theorem cache_unobservable_either :
    let label : Binding Unit := .test (.kinds (.single .string))
    let mark : Binding Unit := .test (.kinds (.single .number))
    let start := new .standard ()
    let left := ((start.compile "label||mark").2.makeBinding "label" label).makeBinding "mark" mark
    let right := (start.makeBinding "mark" mark).makeBinding "label" label
    left.bindings.map Prod.fst ≠ right.bindings.map Prod.fst ∧
      left.cachedExpressions = 2 ∧ right.cachedExpressions = 0 ∧
      (left.compile "label or mark").1.tree = (right.compile "label or mark").1.tree ∧
      ∃ outcome leftAfter rightAfter,
        (evaluate .exceeded "label or mark" (.string "a")).run left = some (outcome, leftAfter) ∧
        (evaluate .exceeded "label or mark" (.string "a")).run right =
          some (outcome, rightAfter) := by
  intro label mark start left right
  have hstart : ReachableFrom .standard () start := .refl
  have hleft : ReachableFrom .standard () left :=
    ((hstart.compile "label||mark").bindTest (by decide) _).bindTest (by decide) _
  have hright : ReachableFrom .standard () right :=
    (hstart.bindTest (by decide) _).bindTest (by decide) _
  have hbindings (name : String) :
      Table.get? name left.bindings = Table.get? name right.bindings := by
    simp only [left, right, bindings_makeBinding, Table.get?_insert]
    by_cases hlabel : "label" = name
    · simp [← hlabel]
    · simp [hlabel, compile]
  have hkinds (kind : Kind) (body : Value → Program Empty Unit Bool) :
      (Binding.test (.kinds (.single kind)) : Binding Unit) ≠ .test (.custom body) := by
    rintro ⟨⟩
  have htests : PureTests left :=
    ((pureTests_new .standard ()).makeBinding "label" fun body heq =>
      absurd heq (hkinds .string body)).makeBinding "mark" fun body heq =>
      absurd heq (hkinds .number body)
  have hnames (name : String) (hname : left.contains name = true) :
      name = "mark" ∨ name = "label" ∨ start.contains name = true := by
    rcases (contains_makeBinding _ _ _ _).mp hname with rfl | hname
    · exact Or.inl rfl
    · exact Or.inr ((contains_makeBinding _ _ _ _).mp hname)
  have hparens (name : String) (hname : left.contains name = true) :
      '(' ∉ name.toList ∧ ')' ∉ name.toList := by
    rcases hnames name hname with rfl | rfl | hname
    · decide
    · decide
    · exact paren_notMem_of_contains_new hname
  have hkeywords (name : String) (hkeyword : name.toList ∈ keywords)
      (hname : left.contains name = true) : start.contains name = true := by
    rcases hnames name hname with rfl | rfl | hname
    · exact absurd hkeyword (by decide)
    · exact absurd hkeyword (by decide)
    · exact hname
  obtain ⟨htree, _, hrun⟩ := cache_unobservable hleft hright hbindings rfl
    (raises_raising .exceeded) htests hparens hkeywords "label or mark"
  obtain ⟨outcome, leftAfter, rightAfter, _, hleftRun, hrightRun, _⟩ := hrun (.string "a")
  exact ⟨by decide +kernel, by decide +kernel, by decide +kernel, htree, outcome, leftAfter,
    rightAfter, hleftRun, hrightRun⟩

end Registry

end Switchboard
