import Switchboard.Proofs.Registry.Closure
import Switchboard.Proofs.Registry.Unattended

/-!
What an evaluation depends on. An evaluation looks up the names that it reaches, in its own
tree and in the trees of the aliases that it follows, and passes over those behind an operator
that is decided. Binding a name changes no reading if the name is bound already, or is a plain
word and no keyword, as long as no name holds a group. So only an evaluation that looks up the
name can tell whether it has been bound since: any other finds the same trees, the same tests
and as many hops as before.
-/

namespace Switchboard

variable {σ α β : Type}

open Switchboard.Parser (IsOperandWord)

namespace Registry

/-- What a name answers, except that looking up this one name has no end. -/
def resolveAvoiding (avoided : String) (answers : Answers σ)
    (follow : String → String → Value → Attempt σ Bool) (name : String) (v : Value) :
    Attempt σ Bool :=
  if name = avoided then liftM (Run.exceeded : Run σ Bool) else resolve answers follow name v

/-- Evaluate a tree with a number of alias hops left, up to the look-up of a name. -/
def evaluateFromAvoiding (avoided : String) (answers : Answers σ) :
    Nat → Expr → Value → Attempt σ Bool
  | 0 => Expr.evaluateWith
      (resolveAvoiding avoided answers fun name _ _ => orFalse answers (.cyclicType name))
  | hops + 1 => Expr.evaluateWith (resolveAvoiding avoided answers fun _ source v => do
      let parsed ← (compileStep source : Run σ Parsed)
      evaluateFromAvoiding avoided answers hops parsed.tree v)

/-- Evaluate a tree, up to the look-up of a name. -/
def evaluateTreeAvoiding (avoided : String) (answers : Answers σ) (tree : Expr) (v : Value) :
    Attempt σ Bool := do
  let registry ← get
  evaluateFromAvoiding avoided answers registry.options.maxAliasDepth tree v

/-- Evaluate an expression text, up to the look-up of a name. -/
def evaluateAvoiding (avoided : String) (answers : Answers σ) (source : String) (v : Value) :
    Attempt σ Bool := do
  let parsed ← (compileStep source : Run σ Parsed)
  evaluateTreeAvoiding avoided answers parsed.tree v

/-- Evaluating a text on a value never looks a name up: the evaluation comes to an end even if
the look-up of the name has none. -/
def NeverLooksUp (answers : Answers σ) (registry : Registry σ) (name source : String)
    (v : Value) : Prop :=
  ((evaluateAvoiding name answers source v).run registry).isSome = true

instance (answers : Answers σ) (registry : Registry σ) (name source : String) (v : Value) :
    Decidable (NeverLooksUp answers registry name source v) :=
  inferInstanceAs (Decidable (_ = true))

/-- Registries with the same settings and readings, hooks that raise every fault, and bindings
that are the same for all names but one. The other tests are pure on the left. -/
structure SameBut (answers : Answers σ) (name : String) (left right : Registry σ) : Prop where
  options : right.options = left.options
  bindings : ∀ other, other ≠ name →
    Table.get? other right.bindings = Table.get? other left.bindings
  reading : ∀ source, right.reading source = left.reading source
  tests : PureTests left
  groupless : GrouplessNames left
  grouplessRight : GrouplessNames right
  raises : Raises answers left.hook
  raisesRight : Raises answers right.hook

theorem SameBut.compile {answers : Answers σ} {name : String} {left right : Registry σ}
    (h : SameBut answers name left right) (source : String) :
    SameBut answers name (left.compile source).2 (right.compile source).2 where
  options := h.options
  bindings := h.bindings
  reading other := by
    rw [reading_compile h.grouplessRight, reading_compile h.groupless, h.reading]
  tests := h.tests
  groupless := h.groupless
  grouplessRight := h.grouplessRight
  raises := h.raises
  raisesRight := h.raisesRight

end Registry

open Registry (SameBut)

/-- Where the first attempt ends on the left, the second ends on the right in the same way, and
leaves registries that are the same but for the name if it succeeds. -/
def Attempt.Spares (answers : Answers σ) (name : String) (avoiding plain : Attempt σ α) : Prop :=
  ∀ left right, SameBut answers name left right → ∀ outcome leftAfter,
    avoiding.run left = some (outcome, leftAfter) → ∃ rightAfter,
      plain.run right = some (outcome, rightAfter) ∧
        ∀ result, outcome = .ok result → SameBut answers name leftAfter rightAfter

section

variable {answers : Answers σ} {avoided : String}

theorem Attempt.spares_pure (result : α) :
    Attempt.Spares answers avoided (pure result) (pure result) := by
  rintro left right h outcome leftAfter hrun
  obtain ⟨rfl, rfl⟩ := Attempt.run_pure_eq_some_iff.mp hrun
  exact ⟨right, rfl, fun _ _ => h⟩

theorem Attempt.Spares.bind {avoiding plain : Attempt σ α} {next nextPlain : α → Attempt σ β}
    (hattempt : Attempt.Spares answers avoided avoiding plain)
    (hnext : ∀ result, Attempt.Spares answers avoided (next result) (nextPlain result)) :
    Attempt.Spares answers avoided (avoiding >>= next) (plain >>= nextPlain) := by
  intro left right h outcome leftAfter hrun
  rcases Attempt.run_bind_eq_some_iff.mp hrun with
    ⟨fault, hfirst, rfl⟩ | ⟨result, middle, hfirst, hsecond⟩
  · obtain ⟨rightAfter, hright, _⟩ := hattempt left right h _ _ hfirst
    refine ⟨rightAfter, Attempt.run_bind_error hright, ?_⟩
    intro result heq
    cases heq
  · obtain ⟨rightMiddle, hright, hmiddle⟩ := hattempt left right h _ _ hfirst
    obtain ⟨rightAfter, hafter, hsame⟩ :=
      hnext result middle rightMiddle (hmiddle result rfl) _ _ hsecond
    exact ⟨rightAfter, (Attempt.run_bind_ok hright).trans hafter, hsame⟩

namespace Registry

theorem orFalse_spares (fault : Fault) :
    Attempt.Spares answers avoided (orFalse answers fault) (orFalse answers fault) := by
  intro left right h outcome leftAfter hrun
  obtain ⟨_, hleft⟩ := orFalse_run h.raises fault
  obtain ⟨rightAfter, hright⟩ := orFalse_run h.raisesRight fault
  rw [hleft] at hrun
  cases hrun
  refine ⟨rightAfter, hright, ?_⟩
  intro result heq
  cases heq

/-- A name that is not the avoided one has the same binding on both sides. -/
theorem resolve_spares {follow followPlain : String → String → Value → Attempt σ Bool}
    (h : ∀ name source v,
      Attempt.Spares answers avoided (follow name source v) (followPlain name source v))
    (name : String) (v : Value) :
    Attempt.Spares answers avoided (resolveAvoiding avoided answers follow name v)
      (resolve answers followPlain name v) := by
  intro left right hsame outcome leftAfter hrun
  rw [resolveAvoiding] at hrun
  split at hrun
  · -- the look-up of the avoided name has no end
    cases hrun
  · next hname =>
      rw [resolve_run] at hrun ⊢
      rw [hsame.bindings name hname]
      rcases hbinding : Table.get? name left.bindings with _ | test | source
      · rw [hbinding] at hrun
        exact orFalse_spares _ left right hsame outcome leftAfter hrun
      · rw [hbinding] at hrun
        have hcheck := hsame.tests.check_run hbinding answers v
        dsimp only at hrun ⊢
        rw [Attempt.run_lift (hcheck left)] at hrun
        cases hrun
        exact ⟨right, Attempt.run_lift (hcheck right), fun _ _ => hsame⟩
      · rw [hbinding] at hrun
        exact h name source v left right hsame outcome leftAfter hrun

/-- What is done with the tree of a text is done with the same tree on both sides. -/
theorem compileStep_spares {next nextPlain : Expr → Attempt σ α}
    (h : ∀ tree, Attempt.Spares answers avoided (next tree) (nextPlain tree)) (source : String) :
    Attempt.Spares answers avoided
      (do
        let parsed ← (compileStep source : Run σ Parsed)
        next parsed.tree)
      (do
        let parsed ← (compileStep source : Run σ Parsed)
        nextPlain parsed.tree) := by
  intro left right hsame outcome leftAfter hrun
  have hplain := h (left.reading source) _ _ (hsame.compile source) outcome leftAfter hrun
  rwa [← hsame.reading source] at hplain

theorem evaluateFrom_spares (hops : Nat) (tree : Expr) (v : Value) :
    Attempt.Spares answers avoided (evaluateFromAvoiding avoided answers hops tree v)
      (evaluateFrom answers hops tree v) := by
  induction hops generalizing tree v with
  | zero =>
      refine Expr.evaluateWith_induction₂ Attempt.spares_pure (fun _ _ _ _ => Attempt.Spares.bind)
        Value.asArray?_rel_of_eq ?_ tree rfl
      rintro name v _ rfl
      exact resolve_spares (fun _ _ _ => orFalse_spares _) name v
  | succ hops ih =>
      refine Expr.evaluateWith_induction₂ Attempt.spares_pure (fun _ _ _ _ => Attempt.Spares.bind)
        Value.asArray?_rel_of_eq ?_ tree rfl
      rintro name v _ rfl
      exact resolve_spares (fun _ source v => compileStep_spares (fun tree => ih tree v) source)
        name v

theorem evaluateTree_spares (tree : Expr) (v : Value) :
    Attempt.Spares answers avoided (evaluateTreeAvoiding avoided answers tree v)
      (evaluateTree answers tree v) := by
  intro left right hsame outcome leftAfter hrun
  rw [evaluateTree, Attempt.run_get_bind, hsame.options]
  exact evaluateFrom_spares left.options.maxAliasDepth tree v left right hsame outcome leftAfter
    hrun

theorem evaluate_spares (source : String) (v : Value) :
    Attempt.Spares answers avoided (evaluateAvoiding avoided answers source v)
      (evaluate answers source v) :=
  compileStep_spares (fun tree => evaluateTree_spares tree v) source

end Registry

end

namespace Registry

variable {registry : Registry σ} {name : String}

/-- Binding a name again, or a plain word that is no keyword, changes no reading. -/
theorem reading_makeBinding (hname : registry.contains name = true ∨ IsOperandWord name)
    (binding : Binding σ) (source : String) :
    (registry.makeBinding name binding).reading source = registry.reading source := by
  have hcache : (registry.makeBinding name binding).cache = registry.cache := by
    rw [cache_makeBinding, if_pos (by rw [Bool.or_eq_true]; exact hname.imp id And.left)]
  have hcontains (other : String) : (registry.makeBinding name binding).contains other =
      registry.contains other ∨ IsOperandWord other := by
    rcases hname with hbound | hword
    · refine Or.inl (Bool.eq_iff_iff.mpr ((contains_makeBinding _ _ _ _).trans ?_))
      exact ⟨fun hother => hother.elim (fun heq => heq ▸ hbound) id, Or.inr⟩
    · by_cases heq : other = name
      · exact Or.inr (heq ▸ hword)
      · exact Or.inl (Bool.eq_iff_iff.mpr
          ((contains_makeBinding _ _ _ _).trans (or_iff_right heq)))
  cases hcached : registry.cache.get? source with
  | some parsed => rw [reading_of_cached hcached, reading_of_cached (by rwa [hcache])]
  | none =>
      cases hnormal : registry.cache.get? (Spelling.normalize source) with
      | none =>
          rw [reading_eq_meaning hcached hnormal,
            reading_eq_meaning (by rwa [hcache]) (by rwa [hcache])]
          exact Cache.meaning_congr hcontains source
      | some parsed =>
          rcases hcontains source with heq | hword
          · rw [reading, reading, compile, compile, hcache, Cache.compile, Cache.compile, heq,
              Cache.compileNormal, Cache.compileNormal, hcached, hnormal]
          · -- the source would be cached, as it is its own normal spelling
            rw [Spelling.normalize_of_isPlainWord hword.1, hcached] at hnormal
            cases hnormal

/-- A registry in which a name has been bound is the same but for that name. -/
theorem sameBut_makeBinding {answers : Answers σ} (hnames : GrouplessNames registry)
    (hraises : Raises answers registry.hook) (htests : PureTests registry)
    (hname : registry.contains name = true ∨ IsOperandWord name) (binding : Binding σ) :
    SameBut answers name registry (registry.makeBinding name binding) where
  options := options_makeBinding registry name binding
  bindings other hother := by
    rw [bindings_makeBinding, Table.get?_insert_of_ne hother.symm]
  reading := reading_makeBinding hname binding
  tests := htests
  groupless := hnames
  grouplessRight other hother := by
    rcases (contains_makeBinding registry name binding other).mp hother with rfl | hother
    · rcases hname with hbound | hword
      · exact hnames other hbound
      · exact Groups.groupless_of_notMem (Parser.notMem_of_isPlainWord hword.1 (by decide))
    · exact hnames other hother
  raises := hraises
  raisesRight := by rwa [hook_makeBinding]

/-- Under a hook that raises, a name that has been bound is the only difference. -/
theorem sameBut_of_bind {answers binder : Answers σ} (hnames : GrouplessNames registry)
    (hraises : Raises answers registry.hook) (hbinder : Raises binder registry.hook)
    (htests : PureTests registry)
    (hname : registry.contains name = true ∨ IsOperandWord name) {overriding : Bool}
    {binding : Binding σ} {after : Registry σ}
    (h : (bind binder overriding name binding).run registry = some (.ok (), after)) :
    SameBut answers name registry after := by
  rcases hcheck : registry.bindFault? overriding name binding with ⟨_ | fault, checked⟩
  · rw [bind_run_of_valid binder hcheck] at h
    cases h
    have hchecked : checked = registry ∨ ∃ source, checked = (registry.compile source).2 := by
      have hsnd := bindFault?_snd registry overriding name binding
      rwa [hcheck] at hsnd
    rcases hchecked with rfl | ⟨source, rfl⟩
    · exact sameBut_makeBinding hnames hraises htests hname binding
    · have hcompiled : GrouplessNames (registry.compile source).2 := hnames
      have hsame := sameBut_makeBinding hcompiled hraises htests hname binding
      exact { hsame with
        reading := fun other => (hsame.reading other).trans (reading_compile hnames source other) }
  · -- a definition that is refused does not succeed, as the hook raises
    obtain ⟨hframed, _⟩ := framed_bindFault? hcheck
    obtain ⟨last, hrun⟩ := recover_run (hframed.hook ▸ hbinder : Raises binder checked.hook) fault
    rw [bind_run_of_fault binder hcheck, hrun] at h
    cases h

theorem sameBut_refl {answers : Answers σ} (hnames : GrouplessNames registry)
    (hraises : Raises answers registry.hook) (htests : PureTests registry) (name : String) :
    SameBut answers name registry registry :=
  ⟨rfl, fun _ _ => rfl, fun _ => rfl, htests, hnames, hnames, hraises, hraises⟩

/-- An evaluation that never looks a name up has the same outcome after the name has been
defined or redefined, whatever it is bound to. The name is bound already, or is a plain word and
no keyword; tests are pure, the hook raises every fault, and no name holds a group. -/
theorem evaluate_bind_of_neverLooksUp {answers binder : Answers σ} {registry after : Registry σ}
    (hnames : GrouplessNames registry) (hraises : Raises answers registry.hook)
    (hbinder : Raises binder registry.hook) (htests : PureTests registry) {name : String}
    (hname : registry.contains name = true ∨ IsOperandWord name) {overriding : Bool}
    {binding : Binding σ}
    (hbind : (bind binder overriding name binding).run registry = some (.ok (), after))
    {source : String} {v : Value} (hnever : NeverLooksUp answers registry name source v) :
    ∃ outcome left right, (evaluate answers source v).run registry = some (outcome, left) ∧
      (evaluate answers source v).run after = some (outcome, right) := by
  obtain ⟨⟨outcome, last⟩, hrun⟩ := Option.isSome_iff_exists.mp hnever
  have hspares : Attempt.Spares answers name (evaluateAvoiding name answers source v)
      (evaluate answers source v) := evaluate_spares source v
  obtain ⟨left, hleft, _⟩ :=
    hspares registry registry (sameBut_refl hnames hraises htests name) outcome last hrun
  obtain ⟨right, hright, _⟩ := hspares registry after
    (sameBut_of_bind hnames hraises hbinder htests hname hbind) outcome last hrun
  exact ⟨outcome, left, right, hleft, hright⟩

/-- A string is a `string or gadget` before `gadget` is defined and after; the name is looked up
for a number only. -/
theorem evaluate_bind_of_neverLooksUp_gadget :
    let registry := new .standard ()
    let v : Value := .string "bolt"
    ¬ NeverLooksUp .exceeded registry "gadget" "string or gadget" .null ∧
      ∃ after outcome left right,
        (define .exceeded "gadget" (.alias "number[]")).run registry = some (.ok (), after) ∧
        (evaluate .exceeded "string or gadget" v).run registry = some (outcome, left) ∧
        (evaluate .exceeded "string or gadget" v).run after = some (outcome, right) := by
  intro registry v
  have hdefined : ((define .exceeded "gadget" (.alias "number[]")).run registry).map Prod.fst =
      some (.ok ()) := by decide +kernel
  obtain ⟨⟨_, after⟩, hdefine, rfl⟩ := Option.map_eq_some_iff.mp hdefined
  obtain ⟨outcome, left, right, hleft, hright⟩ := evaluate_bind_of_neverLooksUp
    (grouplessNames_new .standard ()) (raises_raising .exceeded) (raises_raising .exceeded)
    (pureTests_new .standard ()) (Or.inr (by decide : IsOperandWord "gadget")) hdefine
    (show NeverLooksUp .exceeded registry "gadget" "string or gadget" v by decide +kernel)
  exact ⟨by decide +kernel, after, outcome, left, right, hdefine, hleft, hright⟩

end Registry

end Switchboard
