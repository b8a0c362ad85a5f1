import Switchboard.Proofs.Route.Settled

/-!
Arguments in place. A route can be tested on a list of arguments that it may write to, and a
dispatch can hand one such list from route to route. The test reads the slots while it
matches, and writes to them only after all rules have matched: it gives the list its full
length, and goes over it slot by slot. So a test that refuses or fails leaves the list as it
was, and a dispatch in place is a dispatch of the arguments that the caller gave.
-/

namespace Switchboard

variable {σ S α β : Type}

/-- An attempt that may write to the arguments of a call. What it has written before a fault
stays written. -/
abbrev Rewriting (σ α : Type) : Type :=
  ExceptT Fault (StateT (List Value) (StateT (Registry σ) Option)) α

namespace Rewriting

/-- An attempt that leaves the arguments alone. -/
def ofAttempt (attempt : Attempt σ α) : Rewriting σ α :=
  ExceptT.mk fun arguments registry =>
    (attempt.run registry).map fun (outcome, after) => ((outcome, arguments), after)

theorem run_get_bind (next : List Value → Rewriting σ β) (arguments : List Value)
    (registry : Registry σ) :
    ((get : Rewriting σ (List Value)) >>= next).run arguments registry =
      (next arguments).run arguments registry :=
  rfl

theorem run_ofAttempt (attempt : Attempt σ α) (arguments : List Value) (registry : Registry σ) :
    (ofAttempt attempt).run arguments registry =
      (attempt.run registry).map fun (outcome, after) => ((outcome, arguments), after) :=
  rfl

/-- What follows an attempt is run on the arguments and on the registry that the attempt
leaves. -/
theorem run_ofAttempt_bind (attempt : Attempt σ α) (next : α → Rewriting σ β)
    (arguments : List Value) (registry : Registry σ) :
    (ofAttempt attempt >>= next).run arguments registry =
      (attempt.run registry).bind fun
        | (.ok result, after) => (next result).run arguments after
        | (.error fault, after) => some ((.error fault, arguments), after) := by
  change ((attempt.run registry).map _).bind _ = _
  cases attempt.run registry with
  | none => rfl
  | some answer =>
      obtain ⟨outcome, after⟩ := answer
      cases outcome <;> rfl

/-- Attempts in a row leave the arguments alone if the second does. -/
theorem ofAttempt_bind {attempt : Attempt σ α} {next : α → Rewriting σ β}
    {nextAttempt : α → Attempt σ β} {arguments : List Value}
    (h : ∀ result, (next result).run arguments = (ofAttempt (nextAttempt result)).run arguments) :
    (ofAttempt attempt >>= next).run arguments =
      (ofAttempt (attempt >>= nextAttempt)).run arguments := by
  funext registry
  rw [run_ofAttempt_bind, run_ofAttempt]
  change _ = ((attempt.run registry).bind _).map _
  cases attempt.run registry with
  | none => rfl
  | some answer =>
      obtain ⟨outcome, after⟩ := answer
      cases outcome with
      | error fault => rfl
      | ok result =>
          change (next result).run arguments after = _
          rw [h result]
          rfl

/-- Only what the first part does to the arguments at hand matters. -/
theorem run_bind_congr {first second : Rewriting σ α} {arguments : List Value}
    (h : first.run arguments = second.run arguments) (next : α → Rewriting σ β) :
    (first >>= next).run arguments = (second >>= next).run arguments := by
  funext registry
  change (first.run arguments registry).bind _ = (second.run arguments registry).bind _
  rw [h]

end Rewriting

/-- Give a list of arguments this length, with `undefined` in new slots. -/
def resize (length : Nat) (slots : List Value) : List Value :=
  slots.take length ++ List.replicate (length - slots.length) .undefined

/-- Settle the slots from a position on, one after the other. -/
def Match.settleFrom : Nat → List Match → List Value → List Value
  | _, [], slots => slots
  | position, found :: rest, slots =>
      settleFrom (position + 1) rest (slots.modify position found.settle)

/-- Match the slots from a position on against rules, up to the first that does not match. -/
def Rule.testSlots (answers : Answers σ) : Nat → List Rule → Rewriting σ (Option (List Match))
  | _, [] => return some []
  | position, rule :: rules => do
      let slots : List Value ← get
      match ← Rewriting.ofAttempt (rule.test answers (slots[position]?.getD .undefined)) with
      | none => return none
      | some found =>
          let others ← Rule.testSlots answers (position + 1) rules
          return others.map fun rest => found :: rest

/-- Test a route on arguments that it rewrites if it matches. -/
def Route.testInPlace (answers : Answers σ) (route : Route σ S) : Rewriting σ Bool := do
  let slots : List Value ← get
  if route.rules.length < slots.length then return false
  else
    match ← Rule.testSlots answers 0 route.rules with
    | none => return false
    | some found => do
        modify fun slots : List Value =>
          Match.settleFrom 0 found (resize route.rules.length slots)
        return true

/-- The arguments after a test: settled if the route has matched, else as before. -/
def Route.argumentsAfter (arguments : List Value) :
    Except Fault (Option (List Value)) → List Value
  | .ok (some settled) => settled
  | _ => arguments

theorem Rule.testSlots_run (answers : Answers σ) (position : Nat) (rules : List Rule)
    (arguments : List Value) :
    (testSlots answers position rules).run arguments =
      (Rewriting.ofAttempt (testAll answers rules (arguments.drop position))).run arguments := by
  induction rules generalizing position with
  | nil => rfl
  | cons rule rules ih =>
      have hhead : (arguments.drop position).headD .undefined =
          arguments[position]?.getD .undefined := by
        rw [List.headD_eq_head?_getD, List.head?_drop]
      rw [testSlots, testAll, hhead, List.tail_drop]
      change (Rewriting.ofAttempt _ >>= _).run arguments = _
      refine Rewriting.ofAttempt_bind fun result => ?_
      cases result with
      | none => rfl
      | some found =>
          refine (Rewriting.run_bind_congr (ih (position + 1)) _).trans ?_
          exact Rewriting.ofAttempt_bind fun others => rfl

/-- Settling goes over the slots from a position on and over no other. -/
theorem Match.getElem?_settleFrom (position : Nat) (found : List Match) (slots : List Value)
    (other : Nat) : (settleFrom position found slots)[other]? =
      if other < position then slots[other]?
      else match found[other - position]? with
        | some found => slots[other]?.map found.settle
        | none => slots[other]? := by
  induction found generalizing position slots with
  | nil => simp [settleFrom]
  | cons first rest ih =>
      rw [settleFrom, ih, List.getElem?_modify]
      rcases Nat.lt_trichotomy other position with hlt | rfl | hgt
      · simp [hlt, Nat.lt_succ_of_lt hlt, Nat.ne_of_gt hlt]
      · simp
      · obtain ⟨distance, rfl⟩ := Nat.exists_eq_add_of_lt hgt
        have hsub : position + distance + 1 - position = distance + 1 := by omega
        have hsub' : position + distance + 1 - (position + 1) = distance := by omega
        have hne : ¬ position = position + distance + 1 := by omega
        have hge : ¬ position + distance + 1 < position := by omega
        simp [hsub, hsub', hne, hge]

theorem getElem?_resize {length : Nat} {slots : List Value} (h : slots.length ≤ length)
    {position : Nat} (hposition : position < length) :
    (resize length slots)[position]? = some (slots[position]?.getD .undefined) := by
  rw [resize, List.take_of_length_le h]
  rcases Nat.lt_or_ge position slots.length with hlt | hge
  · rw [List.getElem?_append_left hlt, List.getElem?_eq_getElem hlt]
    rfl
  · rw [List.getElem?_append_right hge, List.getElem?_eq_none hge, List.getElem?_replicate,
      if_pos (by omega)]
    rfl

theorem length_resize {length : Nat} {slots : List Value} (h : slots.length ≤ length) :
    (resize length slots).length = length := by
  rw [resize, List.length_append, List.length_take, List.length_replicate]
  omega

/-- Settling the slots of a list of full length, one after the other, is settling the list. -/
theorem Match.settleFrom_resize {found : List Match} {slots : List Value}
    (h : slots.length ≤ found.length) :
    settleFrom 0 found (resize found.length slots) = settleAll found slots := by
  apply List.ext_getElem?
  intro position
  rw [getElem?_settleFrom, getElem?_settleAll, if_neg (Nat.not_lt_zero _), Nat.sub_zero]
  rcases Nat.lt_or_ge position found.length with hlt | hge
  · rw [getElem?_resize h hlt, List.getElem?_eq_getElem hlt]
    rfl
  · rw [List.getElem?_eq_none hge, List.getElem?_eq_none (by rwa [length_resize h])]
    rfl

/-- As many matches are found as there are rules. -/
theorem Rule.length_of_testAll {answers : Answers σ} {rules : List Rule} {arguments : List Value}
    {registry after : Registry σ} {found : List Match}
    (h : (testAll answers rules arguments).run registry = some (.ok (some found), after)) :
    found.length = rules.length := by
  have hlength := (testAll_eq_some_iff.mp h).length_eq
  rwa [List.length_map, tests, List.length_mapIdx] at hlength

/-- A test in place has the outcome of the test, and rewrites the arguments if it matches. -/
theorem Route.testInPlace_run (answers : Answers σ) (route : Route σ S) (arguments : List Value)
    (registry : Registry σ) :
    (route.testInPlace answers).run arguments registry =
      ((route.test answers arguments).run registry).map fun (outcome, after) =>
        ((outcome.map Option.isSome, argumentsAfter arguments outcome), after) := by
  rw [testInPlace, test, Rewriting.run_get_bind]
  split
  · rfl
  · next hlength =>
      rw [Nat.not_lt] at hlength
      rw [Rewriting.run_bind_congr (Rule.testSlots_run answers 0 route.rules arguments),
        List.drop_zero, Rewriting.run_ofAttempt_bind]
      change _ = ((((Rule.testAll answers route.rules arguments).run registry).bind _).map _)
      cases hrun : (Rule.testAll answers route.rules arguments).run registry with
      | none => rfl
      | some answer =>
          obtain ⟨outcome, after⟩ := answer
          rcases outcome with fault | _ | found
          · rfl
          · rfl
          · have hfound := Rule.length_of_testAll hrun
            change some ((Except.ok true,
              Match.settleFrom 0 found (resize route.rules.length arguments)), after) =
                some ((Except.ok true, Match.settleAll found arguments), after)
            rw [← hfound, Match.settleFrom_resize (by rwa [hfound])]

end Switchboard
