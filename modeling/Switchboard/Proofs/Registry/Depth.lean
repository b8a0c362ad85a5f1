import Switchboard.Proofs.Registry.Unattended

/-!
What the limit on alias hops does. With pure tests and a hook that raises, an evaluation with
fewer hops allowed either is cut off at an alias or goes as it goes with more: the same names
are looked up, the same texts are compiled, and the outcome is the same. Where it is cut off
can be read off the path it was on. A path meets an alias after so many hops if it leads to
the name past operands that were evaluated with the result that lets evaluation go on, and
through so many aliases; the fault of a limit is the name that is met when no hop is left.

Trees are not compared by what their texts read as in one registry. A name may hold a
group, and then compiling one text can change what another reads as, so every step of a path
is taken in the registry that evaluation has left there.
-/

namespace Switchboard

variable {σ α β : Type} {answers : Answers σ}

namespace Registry

/-- The registry with this limit on alias hops. -/
def withDepth (registry : Registry σ) (limit : Nat) : Registry σ :=
  { registry with options := { registry.options with maxAliasDepth := limit } }

/-- A registry with pure tests and a hook that raises every fault. -/
structure Strict (answers : Answers σ) (registry : Registry σ) : Prop where
  raises : Raises answers registry.hook
  tests : PureTests registry

theorem Strict.framed {registry after : Registry σ} (h : registry.Strict answers)
    (hframed : registry.Framed after) : after.Strict answers where
  raises := hframed.hook ▸ h.raises
  tests := h.tests.framed hframed

end Registry

open Registry (Strict)

/-- An outcome that a limit on alias hops has brought about. -/
def IsCutOff (outcome : Except Fault α) : Prop :=
  ∃ name, outcome = .error (.cyclicType name)

/-- Two attempts of which the first is cut off, or both end alike under any two limits. -/
def Attempt.CutsOff (answers : Answers σ) (short long : Attempt σ α) : Prop :=
  ∀ (registry : Registry σ) (limit : Nat), registry.Strict answers → ∃ outcome after,
    short.run registry = some (outcome, after) ∧
      (IsCutOff outcome ∨ ∃ longAfter,
        long.run (registry.withDepth limit) = some (outcome, longAfter) ∧
          ∀ result, outcome = .ok result →
            registry.Framed after ∧ longAfter = after.withDepth limit)

theorem Attempt.cutsOff_pure (result : α) :
    Attempt.CutsOff answers (pure result : Attempt σ α) (pure result) :=
  fun registry limit _ => ⟨.ok result, registry, rfl,
    Or.inr ⟨registry.withDepth limit, rfl, fun _ _ => ⟨.refl registry, rfl⟩⟩⟩

theorem Attempt.CutsOff.bind {short long : Attempt σ α} {next next' : α → Attempt σ β}
    (hfirst : short.CutsOff answers long)
    (hnext : ∀ result, (next result).CutsOff answers (next' result)) :
    (short >>= next).CutsOff answers (long >>= next') := by
  intro registry limit hstrict
  obtain ⟨outcome, after, hrun, hlong⟩ := hfirst registry limit hstrict
  cases outcome with
  | error fault =>
      refine ⟨.error fault, after, Attempt.run_bind_error hrun, ?_⟩
      rcases hlong with ⟨name, hname⟩ | ⟨longAfter, hlongRun, _⟩
      · cases hname
        exact Or.inl ⟨name, rfl⟩
      · exact Or.inr ⟨longAfter, Attempt.run_bind_error hlongRun, fun _ heq => nomatch heq⟩
  | ok result =>
      rcases hlong with ⟨name, hname⟩ | ⟨longAfter, hlongRun, hafter⟩
      · cases hname
      · obtain ⟨hframed, rfl⟩ := hafter result rfl
        obtain ⟨last, final, hlast, hlongLast⟩ :=
          hnext result after limit (hstrict.framed hframed)
        refine ⟨last, final, by rw [Attempt.run_bind_ok hrun, hlast], ?_⟩
        refine hlongLast.imp id fun ⟨longFinal, hlongFinal, hfinal⟩ => ?_
        refine ⟨longFinal, ?_, fun value heq => ?_⟩
        · rw [Attempt.run_bind_ok hlongRun, hlongFinal]
        · exact ⟨hframed.trans (hfinal value heq).1, (hfinal value heq).2⟩

/-- An attempt that is not cut off leaves the registry as strict as it was. -/
theorem Attempt.CutsOff.strict {short long : Attempt σ α} (h : short.CutsOff answers long)
    {registry after : Registry σ} (hstrict : registry.Strict answers) {result : α}
    (hrun : short.run registry = some (.ok result, after)) : after.Strict answers := by
  obtain ⟨outcome, again, hagain, hlong⟩ := h registry 0 hstrict
  rw [hrun] at hagain
  cases hagain
  rcases hlong with ⟨name, hname⟩ | ⟨_, _, hafter⟩
  · cases hname
  · exact hstrict.framed (hafter result rfl).1

namespace Registry

theorem orFalse_cutsOff (fault : Fault) :
    (orFalse answers fault).CutsOff answers (orFalse answers fault) := by
  intro registry limit hstrict
  obtain ⟨after, hrun⟩ := orFalse_run hstrict.raises fault
  have hraises : Raises answers (registry.withDepth limit).hook := hstrict.raises
  obtain ⟨longAfter, hlong⟩ := orFalse_run hraises fault
  exact ⟨.error fault, after, hrun, Or.inr ⟨longAfter, hlong, fun _ heq => nomatch heq⟩⟩

theorem resolve_cutsOff {follow follow' : String → String → Value → Attempt σ Bool}
    (h : ∀ name source v, (follow name source v).CutsOff answers (follow' name source v))
    (name : String) (v : Value) :
    (resolve answers follow name v).CutsOff answers (resolve answers follow' name v) := by
  intro registry limit hstrict
  have hbindings : (registry.withDepth limit).bindings = registry.bindings := rfl
  rw [resolve_run, resolve_run, hbindings]
  rcases hbinding : Table.get? name registry.bindings with _ | test | source
  · exact orFalse_cutsOff _ registry limit hstrict
  · have hcheck := hstrict.tests.check_run hbinding answers v
    exact ⟨.ok (test.holds v), registry, Attempt.run_lift (hcheck registry),
      Or.inr ⟨_, Attempt.run_lift (hcheck _), fun _ _ => ⟨.refl registry, rfl⟩⟩⟩
  · exact h name source v registry limit hstrict

/-- What is done with an alias that is met with a number of hops left. -/
def follow (answers : Answers σ) : Nat → String → String → Value → Attempt σ Bool
  | 0 => fun name _ _ => orFalse answers (.cyclicType name)
  | hops + 1 => fun _ source v => do
      let parsed ← (compileStep source : Run σ Parsed)
      evaluateFrom answers hops parsed.tree v

theorem evaluateFrom_eq (answers : Answers σ) (hops : Nat) :
    evaluateFrom answers hops = Expr.evaluateWith (resolve answers (follow answers hops)) := by
  cases hops <;> rfl

theorem follow_succ_run (answers : Answers σ) (hops : Nat) (name source : String) (v : Value)
    (registry : Registry σ) : (follow answers (hops + 1) name source v).run registry =
      (evaluateFrom answers hops (registry.reading source) v).run (registry.compile source).2 :=
  rfl

/-- What holds of the aliases that are met holds of a tree. -/
theorem evaluateFrom_cutsOff_of_follow {hops more : Nat}
    (h : ∀ name source v,
      (follow answers hops name source v).CutsOff answers (follow answers more name source v))
    (tree : Expr) (v : Value) :
    (evaluateFrom answers hops tree v).CutsOff answers (evaluateFrom answers more tree v) := by
  rw [evaluateFrom_eq, evaluateFrom_eq]
  refine Expr.evaluateWith_induction₂ Attempt.cutsOff_pure (fun _ _ _ _ => Attempt.CutsOff.bind)
    Value.asArray?_rel_of_eq ?_ tree rfl
  rintro name v _ rfl
  exact resolve_cutsOff h name v

/-- Fewer hops cut an evaluation off, or change nothing. -/
theorem evaluateFrom_cutsOff {hops more : Nat} (hle : hops ≤ more) (tree : Expr) (v : Value) :
    (evaluateFrom answers hops tree v).CutsOff answers (evaluateFrom answers more tree v) := by
  induction hops generalizing more tree v with
  | zero =>
      refine evaluateFrom_cutsOff_of_follow (fun name source v registry limit hstrict => ?_) tree v
      obtain ⟨after, hrun⟩ := orFalse_run hstrict.raises (.cyclicType name)
      exact ⟨_, after, hrun, Or.inl ⟨name, rfl⟩⟩
  | succ hops ih =>
      obtain ⟨more, rfl⟩ := Nat.exists_eq_add_of_le' (Nat.le_of_add_left_le hle)
      refine evaluateFrom_cutsOff_of_follow (fun name source v registry limit hstrict => ?_) tree v
      have hframed : registry.Framed (registry.compile source).2 := ⟨rfl, rfl, rfl⟩
      obtain ⟨outcome, after, hrun, hlong⟩ := ih (Nat.le_of_succ_le_succ hle)
        (registry.reading source) v (registry.compile source).2 limit (hstrict.framed hframed)
      refine ⟨outcome, after, hrun, hlong.imp id fun ⟨longAfter, hlongRun, hafter⟩ => ?_⟩
      exact ⟨longAfter, hlongRun, fun result heq =>
        ⟨hframed.trans (hafter result heq).1, (hafter result heq).2⟩⟩

theorem allPass_cutsOff {hops more : Nat} (hle : hops ≤ more) (inner : Expr)
    (items : List Value) :
    (allPass (evaluateFrom answers hops inner) items).CutsOff answers
      (allPass (evaluateFrom answers more inner) items) := by
  refine allPass_induction₂ Attempt.cutsOff_pure (fun _ _ _ _ => Attempt.CutsOff.bind) ?_
    (List.forall₂_same.mpr fun v _ => rfl)
  rintro v _ rfl
  exact evaluateFrom_cutsOff hle inner v

end Registry

/-- Of attempts that cut each other off, each is cut off or succeeds as one of them does. -/
theorem Attempt.eq_or_isCutOff {attempts : Nat → Attempt σ α}
    (h : ∀ hops more, hops ≤ more → (attempts hops).CutsOff answers (attempts more))
    {registry after : Registry σ} (hstrict : registry.Strict answers) {limit : Nat} {result : α}
    (hrun : (attempts limit).run registry = some (.ok result, after)) (hops : Nat) :
    (attempts hops).run registry = some (.ok result, after) ∨
      ∃ name after, (attempts hops).run registry = some (.error (.cyclicType name), after) := by
  -- A registry under its own limit is the registry itself.
  have hown (registry : Registry σ) :
      registry.withDepth registry.options.maxAliasDepth = registry := rfl
  rcases Nat.le_total limit hops with hle | hle
  · obtain ⟨outcome, again, hagain, hlong⟩ :=
      h limit hops hle registry registry.options.maxAliasDepth hstrict
    rw [hrun] at hagain
    cases hagain
    rcases hlong with ⟨name, hname⟩ | ⟨longAfter, hlongRun, hafter⟩
    · cases hname
    · obtain ⟨hframed, rfl⟩ := hafter result rfl
      rw [hown, ← hframed.options, hown] at hlongRun
      exact Or.inl hlongRun
  · obtain ⟨outcome, shortAfter, hshort, hlong⟩ :=
      h hops limit hle registry registry.options.maxAliasDepth hstrict
    rcases hlong with ⟨name, rfl⟩ | ⟨longAfter, hlongRun, hafter⟩
    · exact Or.inr ⟨name, shortAfter, hshort⟩
    · rw [hown, hrun] at hlongRun
      cases hlongRun
      obtain ⟨hframed, rfl⟩ := hafter result rfl
      rw [← hframed.options, hown]
      exact Or.inl hshort

namespace Registry

/-- Evaluating the tree on the value meets an alias of this name after so many hops. An
operand or item that is evaluated earlier has, with some allowance of hops, a result after
which evaluation goes on. -/
inductive Meets (answers : Answers σ) : Registry σ → Expr → Value → Nat → String → Prop
  | here {registry : Registry σ} {name source : String} {v : Value}
      (hname : Table.get? name registry.bindings = some (.alias source)) :
      Meets answers registry (.named name) v 0 name
  | hop {registry : Registry σ} {name source other : String} {v : Value} {hops : Nat}
      (hname : Table.get? name registry.bindings = some (.alias source))
      (h : Meets answers (registry.compile source).2 (registry.reading source) v hops other) :
      Meets answers registry (.named name) v (hops + 1) other
  | orLeft {registry : Registry σ} {left right : Expr} {v : Value} {hops : Nat} {name : String}
      (h : Meets answers registry left v hops name) :
      Meets answers registry (.or left right) v hops name
  | orRight {registry middle : Registry σ} {left right : Expr} {v : Value} {hops limit : Nat}
      {name : String}
      (hleft : (evaluateFrom answers limit left v).run registry = some (.ok false, middle))
      (h : Meets answers middle right v hops name) :
      Meets answers registry (.or left right) v hops name
  | andLeft {registry : Registry σ} {left right : Expr} {v : Value} {hops : Nat} {name : String}
      (h : Meets answers registry left v hops name) :
      Meets answers registry (.and left right) v hops name
  | andRight {registry middle : Registry σ} {left right : Expr} {v : Value} {hops limit : Nat}
      {name : String}
      (hleft : (evaluateFrom answers limit left v).run registry = some (.ok true, middle))
      (h : Meets answers middle right v hops name) :
      Meets answers registry (.and left right) v hops name
  | not {registry : Registry σ} {inner : Expr} {v : Value} {hops : Nat} {name : String}
      (h : Meets answers registry inner v hops name) :
      Meets answers registry (.not inner) v hops name
  | item {registry middle : Registry σ} {inner : Expr} {before after : List Value} {v : Value}
      {hops limit : Nat} {name : String}
      (hbefore : (allPass (evaluateFrom answers limit inner) before).run registry =
        some (.ok true, middle))
      (h : Meets answers middle inner v hops name) :
      Meets answers registry (.arrayOf inner) (.array (before ++ v :: after)) hops name

theorem evaluateFrom_named (hops : Nat) (name : String) (v : Value) :
    evaluateFrom answers hops (.named name) v = resolve answers (follow answers hops) name v := by
  rw [evaluateFrom_eq]
  rfl

theorem evaluateFrom_or (hops : Nat) (left right : Expr) (v : Value) :
    evaluateFrom answers hops (.or left right) v = (do
      if ← evaluateFrom answers hops left v then return true
      else evaluateFrom answers hops right v) := by
  rw [evaluateFrom_eq]
  rfl

theorem evaluateFrom_and (hops : Nat) (left right : Expr) (v : Value) :
    evaluateFrom answers hops (.and left right) v = (do
      if ← evaluateFrom answers hops left v then evaluateFrom answers hops right v
      else return false) := by
  rw [evaluateFrom_eq]
  rfl

theorem evaluateFrom_not (hops : Nat) (inner : Expr) (v : Value) :
    evaluateFrom answers hops (.not inner) v = (do
      return !(← evaluateFrom answers hops inner v)) := by
  rw [evaluateFrom_eq]
  rfl

theorem evaluateFrom_array (hops : Nat) (inner : Expr) (items : List Value) :
    evaluateFrom answers hops (.arrayOf inner) (.array items) =
      allPass (evaluateFrom answers hops inner) items := by
  rw [evaluateFrom_eq]
  rfl

theorem allPass_append (passes : Value → Attempt σ Bool) (before rest : List Value) :
    allPass passes (before ++ rest) = (do
      if ← allPass passes before then allPass passes rest else return false) := by
  induction before with
  | nil =>
      rw [allPass, pure_bind]
      rfl
  | cons v before ih =>
      rw [List.cons_append, allPass, allPass, bind_assoc]
      congr 1
      funext passed
      cases passed with
      | true => exact ih
      | false => rfl

/-- A fault of a list is the fault of the first item that does not pass. -/
theorem of_allPass_run_error {passes : Value → Attempt σ Bool} {items : List Value}
    {registry after : Registry σ} {fault : Fault}
    (h : (allPass passes items).run registry = some (.error fault, after)) :
    ∃ before v rest middle, items = before ++ v :: rest ∧
      (allPass passes before).run registry = some (.ok true, middle) ∧
        (passes v).run middle = some (.error fault, after) := by
  induction items generalizing registry with
  | nil => cases h
  | cons v items ih =>
      rcases Attempt.run_bind_eq_some_iff.mp h with ⟨_, hv, heq⟩ | ⟨passed, next, hv, hrest⟩
      · cases heq
        exact ⟨[], v, items, registry, rfl, rfl, hv⟩
      · cases passed with
        | true =>
            obtain ⟨before, w, rest, middle, rfl, hbefore, hw⟩ := ih hrest
            refine ⟨v :: before, w, rest, middle, rfl, ?_, hw⟩
            rw [allPass, Attempt.run_bind_ok hv]
            exact hbefore
        | false => cases hrest

/-- What the names of a tree meet when they are cut off, the tree meets. -/
theorem meets_of_names {hops : Nat}
    (h : ∀ (registry after : Registry σ) (name other : String) (v : Value),
      registry.Strict answers →
        (evaluateFrom answers hops (.named name) v).run registry =
          some (.error (.cyclicType other), after) →
        Meets answers registry (.named name) v hops other)
    {tree : Expr} {v : Value} {registry after : Registry σ} {name : String}
    (hstrict : registry.Strict answers)
    (hrun : (evaluateFrom answers hops tree v).run registry =
      some (.error (.cyclicType name), after)) :
    Meets answers registry tree v hops name := by
  have hkeeps {tree : Expr} {v : Value} {registry middle : Registry σ} {result : Bool}
      (hstrict : registry.Strict answers)
      (hok : (evaluateFrom answers hops tree v).run registry = some (.ok result, middle)) :
      middle.Strict answers :=
    (evaluateFrom_cutsOff (Nat.le_refl hops) tree v).strict hstrict hok
  induction tree generalizing v registry with
  | named other => exact h registry after other name v hstrict hrun
  | or left right ihl ihr =>
      rw [evaluateFrom_or] at hrun
      rcases Attempt.run_bind_eq_some_iff.mp hrun with
        ⟨_, hleft, heq⟩ | ⟨passed, middle, hleft, hright⟩
      · cases heq
        exact .orLeft (ihl hstrict hleft)
      · cases passed with
        | true => cases hright
        | false => exact .orRight hleft (ihr (hkeeps hstrict hleft) hright)
  | and left right ihl ihr =>
      rw [evaluateFrom_and] at hrun
      rcases Attempt.run_bind_eq_some_iff.mp hrun with
        ⟨_, hleft, heq⟩ | ⟨passed, middle, hleft, hright⟩
      · cases heq
        exact .andLeft (ihl hstrict hleft)
      · cases passed with
        | true => exact .andRight hleft (ihr (hkeeps hstrict hleft) hright)
        | false => cases hright
  | not inner ih =>
      rw [evaluateFrom_not] at hrun
      rcases Attempt.run_bind_eq_some_iff.mp hrun with
        ⟨_, hinner, heq⟩ | ⟨_, _, _, hnegated⟩
      · cases heq
        exact .not (ih hstrict hinner)
      · cases hnegated
  | arrayOf inner ih =>
      rw [evaluateFrom_eq, Expr.evaluateWith_arrayOf, ← evaluateFrom_eq] at hrun
      cases v with
      | array items =>
          obtain ⟨before, w, rest, middle, rfl, hbefore, hw⟩ := of_allPass_run_error hrun
          have hmiddle := (allPass_cutsOff (Nat.le_refl hops) inner before).strict hstrict hbefore
          exact .item hbefore (ih hmiddle hw)
      | _ => cases hrun

/-- A name at which an evaluation is cut off is an alias. -/
theorem of_named_run {hops : Nat} {name other : String} {v : Value} {registry after : Registry σ}
    (hstrict : registry.Strict answers)
    (hrun : (evaluateFrom answers hops (.named name) v).run registry =
      some (.error (.cyclicType other), after)) :
    ∃ source, Table.get? name registry.bindings = some (.alias source) ∧
      (follow answers hops name source v).run registry =
        some (.error (.cyclicType other), after) := by
  rw [evaluateFrom_named, resolve_run] at hrun
  rcases hbinding : Table.get? name registry.bindings with _ | test | source
  · obtain ⟨last, hunknown⟩ := orFalse_run hstrict.raises (.unknownType name)
    simp only [hbinding, hunknown] at hrun
    cases hrun
  · have hcheck := Attempt.run_lift (hstrict.tests.check_run hbinding answers v registry)
    simp only [hbinding, hcheck] at hrun
    cases hrun
  · simp only [hbinding] at hrun
    exact ⟨source, rfl, hrun⟩

/-- The alias at which an evaluation is cut off is met with no hop left. -/
theorem meets_of_run {hops : Nat} {tree : Expr} {v : Value} {registry after : Registry σ}
    {name : String} (hstrict : registry.Strict answers)
    (hrun : (evaluateFrom answers hops tree v).run registry =
      some (.error (.cyclicType name), after)) :
    Meets answers registry tree v hops name := by
  induction hops generalizing tree v registry after name with
  | zero =>
      refine meets_of_names (fun registry after name other v hstrict hrun => ?_) hstrict hrun
      obtain ⟨source, hbinding, hfollow⟩ := of_named_run hstrict hrun
      obtain ⟨last, hcyclic⟩ := orFalse_run hstrict.raises (.cyclicType name)
      rw [follow, hcyclic] at hfollow
      cases hfollow
      exact .here hbinding
  | succ hops ih =>
      refine meets_of_names (fun registry after name other v hstrict hrun => ?_) hstrict hrun
      obtain ⟨source, hbinding, hfollow⟩ := of_named_run hstrict hrun
      exact .hop hbinding (ih (hstrict.framed ⟨rfl, rfl, rfl⟩) hfollow)

/-- An evaluation that meets an alias with no hop left is cut off, there or earlier. -/
theorem Meets.run {hops : Nat} {tree : Expr} {v : Value} {registry : Registry σ} {name : String}
    (h : Meets answers registry tree v hops name) (hstrict : registry.Strict answers) :
    ∃ other after, (evaluateFrom answers hops tree v).run registry =
      some (.error (.cyclicType other), after) := by
  -- What comes before the path goes as it does with another allowance, or is cut off.
  have hevaluated {registry middle : Registry σ} {tree : Expr} {v : Value} {limit : Nat}
      {result : Bool} (hstrict : registry.Strict answers)
      (hok : (evaluateFrom answers limit tree v).run registry = some (.ok result, middle))
      (hops : Nat) :=
    Attempt.eq_or_isCutOff (fun _ _ hle => evaluateFrom_cutsOff hle tree v) hstrict hok hops
  have hkeeps {tree : Expr} {v : Value} {registry middle : Registry σ} {limit : Nat}
      {result : Bool} (hstrict : registry.Strict answers)
      (hok : (evaluateFrom answers limit tree v).run registry = some (.ok result, middle)) :
      middle.Strict answers :=
    (evaluateFrom_cutsOff (Nat.le_refl limit) tree v).strict hstrict hok
  induction h with
  | @here registry name source v hname =>
      obtain ⟨after, hcyclic⟩ := orFalse_run hstrict.raises (.cyclicType name)
      refine ⟨name, after, ?_⟩
      rw [evaluateFrom_named, resolve_run]
      simp only [hname, follow, hcyclic]
  | @hop registry name source other v hops hname _ ih =>
      rw [evaluateFrom_named, resolve_run]
      simp only [hname, follow_succ_run]
      exact ih (hstrict.framed ⟨rfl, rfl, rfl⟩)
  | orLeft _ ih =>
      obtain ⟨other, after, hleft⟩ := ih hstrict
      exact ⟨other, after, by rw [evaluateFrom_or, Attempt.run_bind_error hleft]⟩
  | @orRight registry middle left right v hops limit name hleft _ ih =>
      rw [evaluateFrom_or]
      rcases hevaluated hstrict hleft hops with hleft | ⟨other, after, hcut⟩
      · rw [Attempt.run_bind_ok hleft]
        exact ih (hkeeps hstrict hleft)
      · exact ⟨other, after, Attempt.run_bind_error hcut⟩
  | andLeft _ ih =>
      obtain ⟨other, after, hleft⟩ := ih hstrict
      exact ⟨other, after, by rw [evaluateFrom_and, Attempt.run_bind_error hleft]⟩
  | @andRight registry middle left right v hops limit name hleft _ ih =>
      rw [evaluateFrom_and]
      rcases hevaluated hstrict hleft hops with hleft | ⟨other, after, hcut⟩
      · rw [Attempt.run_bind_ok hleft]
        exact ih (hkeeps hstrict hleft)
      · exact ⟨other, after, Attempt.run_bind_error hcut⟩
  | not _ ih =>
      obtain ⟨other, after, hinner⟩ := ih hstrict
      exact ⟨other, after, by rw [evaluateFrom_not, Attempt.run_bind_error hinner]⟩
  | @item registry middle inner before rest v hops limit name hbefore _ ih =>
      have hmiddle := (allPass_cutsOff (Nat.le_refl limit) inner before).strict hstrict hbefore
      rw [evaluateFrom_array, allPass_append]
      rcases Attempt.eq_or_isCutOff (fun _ _ hle => allPass_cutsOff hle inner before) hstrict
        hbefore hops with hpassed | ⟨other, after, hcut⟩
      · obtain ⟨other, after, hv⟩ := ih hmiddle
        refine ⟨other, after, ?_⟩
        rw [Attempt.run_bind_ok hpassed]
        exact Attempt.run_bind_error hv
      · exact ⟨other, after, Attempt.run_bind_error hcut⟩

/-- The limit on alias hops only ever cuts an evaluation off. With pure tests and a hook that
raises, every evaluation ends. An outcome that is no cyclic type is the outcome under every
larger limit too. A cyclic type is an alias that is met after exactly as many hops as the
limit allows; some alias is met so wherever one is reported, and none is reported where
every alias is met after fewer hops. -/
theorem evaluateTree_depth {registry : Registry σ} (hraises : Raises answers registry.hook)
    (htests : PureTests registry) (tree : Expr) (v : Value) :
    ∃ outcome after, (evaluateTree answers tree v).run registry = some (outcome, after) ∧
      ((∀ name, outcome ≠ .error (.cyclicType name)) →
        ∀ limit, registry.options.maxAliasDepth ≤ limit →
          ∃ after', (evaluateTree answers tree v).run (registry.withDepth limit) =
            some (outcome, after')) ∧
      (∀ name, outcome = .error (.cyclicType name) →
        Meets answers registry tree v registry.options.maxAliasDepth name) ∧
      ((∃ name, Meets answers registry tree v registry.options.maxAliasDepth name) →
        ∃ name, outcome = .error (.cyclicType name)) ∧
      ((∀ hops name, Meets answers registry tree v hops name →
          hops < registry.options.maxAliasDepth) →
        ∀ name, outcome ≠ .error (.cyclicType name)) := by
  have hstrict : registry.Strict answers := ⟨hraises, htests⟩
  have hrun (registry : Registry σ) : (evaluateTree answers tree v).run registry =
      (evaluateFrom answers registry.options.maxAliasDepth tree v).run registry := rfl
  have hself : (evaluateFrom answers registry.options.maxAliasDepth tree v).CutsOff answers
      (evaluateFrom answers registry.options.maxAliasDepth tree v) :=
    evaluateFrom_cutsOff (Nat.le_refl _) tree v
  obtain ⟨outcome, after, hshort, _⟩ := hself registry 0 hstrict
  have hmeets (name : String) (hname : outcome = .error (.cyclicType name)) :
      Meets answers registry tree v registry.options.maxAliasDepth name :=
    meets_of_run hstrict (hname ▸ hshort)
  refine ⟨outcome, after, by rw [hrun, hshort], fun hother limit hle => ?_, hmeets, ?_, ?_⟩
  · obtain ⟨again, _, hagain, hlong⟩ :=
      evaluateFrom_cutsOff hle tree v registry limit hstrict
    rw [hshort] at hagain
    cases hagain
    rcases hlong with ⟨name, hname⟩ | ⟨longAfter, hlongRun, _⟩
    · exact absurd hname (hother name)
    · exact ⟨longAfter, by rw [hrun]; exact hlongRun⟩
  · rintro ⟨name, hname⟩
    obtain ⟨other, last, hcut⟩ := hname.run hstrict
    rw [hshort] at hcut
    cases hcut
    exact ⟨other, rfl⟩
  · intro hfewer name hname
    exact Nat.lt_irrefl _ (hfewer _ name (hmeets name hname))

/-- A registry in which `a` and `b` refer to each other, the first since it was bound again. -/
def circular (limit : Nat) : Registry Unit :=
  (((new ⟨true, limit⟩ ()).makeBinding "a" (.alias "string")).makeBinding "b"
    (.alias "a")).makeBinding "a" (.alias "boolean or b")

theorem pureTests_circular (limit : Nat) : PureTests (circular limit) := by
  intro name body hbinding
  simp only [circular, bindings_makeBinding, Table.get?_insert] at hbinding
  split_ifs at hbinding
  · cases hbinding
  · cases hbinding
  · exact pureTests_new _ _ name body hbinding

/-- With three hops, `null` goes round the circle and is cut off at `b`, which it meets for the
second time; a Boolean is an `a` at once, and stays one with more hops. -/
theorem evaluateTree_depth_circular :
    (∃ after, (evaluateTree .exceeded (.named "a") .null).run (circular 3) =
        some (.error (.cyclicType "b"), after)) ∧
      Meets .exceeded (circular 3) (.named "a") .null 3 "b" ∧
      ∀ limit, 3 ≤ limit → ∃ after,
        (evaluateTree .exceeded (.named "a") (.boolean true)).run ((circular 3).withDepth limit) =
          some (.ok true, after) := by
  have hraises : Raises .exceeded (circular 3).hook := raises_raising .exceeded
  obtain ⟨outcome, after, hnull, _, hmeets, _⟩ :=
    evaluateTree_depth hraises (pureTests_circular 3) (.named "a") .null
  obtain ⟨other, last, hboolean, hlonger, _⟩ :=
    evaluateTree_depth hraises (pureTests_circular 3) (.named "a") (.boolean true)
  have hcut : ((evaluateTree .exceeded (.named "a") .null).run (circular 3)).map Prod.fst =
      some (.error (.cyclicType "b")) := by decide +kernel
  have hholds : ((evaluateTree .exceeded (.named "a") (.boolean true)).run (circular 3)).map
      Prod.fst = some (.ok true) := by decide +kernel
  rw [hnull] at hcut
  cases hcut
  rw [hboolean] at hholds
  cases hholds
  exact ⟨⟨after, hnull⟩, hmeets "b" rfl, hlonger fun _ heq => nomatch heq⟩

end Registry

end Switchboard
