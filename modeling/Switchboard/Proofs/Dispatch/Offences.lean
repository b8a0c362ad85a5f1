import Switchboard.Proofs.Dispatch.InTurn
import Switchboard.Proofs.Registry.Unattended

/-!
What a construction objects to. A rule is refused for the leftmost descriptor in it that is a
blank type text or a default in a default; the fields of a shape stand before the shape. An
item of a sequence is out of place by its position alone: rules stand at even positions and
behaviors at odd ones. So the fault of a construction can be read off the descriptors and the
items, and a construction that meets a fault compiles texts, reports that fault and stops.
-/

namespace Switchboard

variable {σ S α β : Type}

mutual

/-- The leftmost descriptor that no rule is built of. -/
def Descriptor.refused? : Descriptor → Option Descriptor
  | .type source => if Text.isBlankText source then some (.type source) else none
  | .shape fields => refusedField? fields
  | .defaulted (.type source) _ => if Text.isBlankText source then some (.type source) else none
  | .defaulted (.shape fields) _ => refusedField? fields
  | .defaulted (.defaulted inner first) second => some (.defaulted (.defaulted inner first) second)

def Descriptor.refusedField? : List (String × Descriptor) → Option Descriptor
  | [] => none
  | (_, field) :: rest => field.refused?.or (refusedField? rest)

end

/-- The fault of a refused descriptor. -/
def Fault.ofRefused (refused? : Option Descriptor) : Option Fault :=
  refused?.map fun bad => .invalidRule bad.display

/-- What is wrong with an item at a position, if no item before it is out of place. -/
def Item.offence? (position : Nat) : Item σ S → Option Fault
  | .rules descriptors =>
      if position % 2 = 0 then Fault.ofRefused (descriptors.findSome? Descriptor.refused?)
      else some (.invalidRoute position .rulesBeforeBehavior)
  | .behavior _ =>
      if position % 2 = 0 then some (.invalidRoute position .behaviorBeforeRules) else none

/-- The leftmost offence of a sequence from a position on. The rules that miss a behavior are
the last item. -/
def Item.firstOffence? : Nat → List (Item σ S) → Option Fault
  | position, [] =>
      if position % 2 = 0 then none else some (.invalidRoute (position - 1) .missingBehavior)
  | position, item :: rest => (item.offence? position).or (firstOffence? (position + 1) rest)

/-- An attempt that succeeds if there is no offence, and else reports the offence. Nothing but
the cache has changed by then. -/
def Attempt.Meets (answers : Answers σ) (offence? : Option Fault) (attempt : Attempt σ α) : Prop :=
  ∀ registry : Registry σ, ∃ middle, registry.Framed middle ∧
    match offence? with
    | none => ∃ result, attempt.run registry = some (.ok result, middle)
    | some fault => attempt.run registry = (report answers fault : Attempt σ α).run middle

/-- Nothing follows a report. -/
theorem report_bind (answers : Answers σ) (fault : Fault) (next : α → Attempt σ β) :
    (report answers fault : Attempt σ α) >>= next = report answers fault := by
  rw [report, report, bind_assoc]
  rfl

/-- A report ends in its fault, if it ends. -/
theorem of_report_run {answers : Answers σ} {fault : Fault} {registry after : Registry σ}
    {outcome : Except Fault α}
    (h : (report answers fault : Attempt σ α).run registry = some (outcome, after)) :
    outcome = .error fault := by
  change ((consult answers fault registry).bind fun consulted => _).bind _ = _ at h
  obtain ⟨_, hconsult, heq⟩ := Option.bind_eq_some_iff.mp h
  obtain ⟨_, _, ⟨⟩⟩ := Option.bind_eq_some_iff.mp hconsult
  cases heq
  rfl

namespace Attempt

variable {answers : Answers σ}

theorem meets_pure (result : α) : Meets answers none (pure result : Attempt σ α) :=
  fun registry => ⟨registry, .refl registry, result, rfl⟩

theorem meets_report (fault : Fault) :
    Meets answers (some fault) (report answers fault : Attempt σ α) :=
  fun registry => ⟨registry, .refl registry, rfl⟩

theorem meets_compile (source : String) : Meets answers none
    (liftM (Registry.compileStep source : Run σ Parsed) : Attempt σ Parsed) :=
  fun registry => ⟨(registry.compile source).2, ⟨rfl, rfl, rfl⟩, (registry.compile source).1, rfl⟩

/-- Of attempts in a row, the first that meets an offence reports it. -/
theorem Meets.bind {first? second? : Option Fault} {attempt : Attempt σ α}
    {next : α → Attempt σ β} (hattempt : attempt.Meets answers first?)
    (hnext : ∀ result, (next result).Meets answers second?) :
    (attempt >>= next).Meets answers (first?.or second?) := by
  intro registry
  obtain ⟨middle, hframed, hrun⟩ := hattempt registry
  cases first? with
  | some fault =>
      refine ⟨middle, hframed, ?_⟩
      change (attempt >>= next).run registry = _
      rw [← report_bind answers fault next]
      change (attempt.run registry).bind _ = ((report answers fault : Attempt σ α).run middle).bind _
      rw [hrun]
  | none =>
      obtain ⟨result, hresult⟩ := hrun
      obtain ⟨after, hframed', hafter⟩ := hnext result middle
      refine ⟨after, hframed.trans hframed', ?_⟩
      rw [Option.none_or, run_bind_ok hresult]
      exact hafter

/-- An attempt succeeds if and only if there is no offence. -/
theorem Meets.exists_ok_iff {offence? : Option Fault} {attempt : Attempt σ α}
    (h : attempt.Meets answers offence?) (registry : Registry σ) :
    (∃ result after, attempt.run registry = some (.ok result, after)) ↔ offence? = none := by
  obtain ⟨middle, _, hrun⟩ := h registry
  cases offence? with
  | none => exact iff_of_true ⟨_, middle, hrun.choose_spec⟩ rfl
  | some fault =>
      refine iff_of_false ?_ (Option.some_ne_none fault)
      rintro ⟨result, after, hok⟩
      rw [hrun] at hok
      cases of_report_run hok

/-- An attempt that fails has met its offence. -/
theorem Meets.of_run_error {offence? : Option Fault} {attempt : Attempt σ α}
    (h : attempt.Meets answers offence?) {registry after : Registry σ} {fault : Fault}
    (hrun : attempt.run registry = some (.error fault, after)) : offence? = some fault := by
  obtain ⟨middle, _, hmeets⟩ := h registry
  cases offence? with
  | none =>
      obtain ⟨_, hresult⟩ := hmeets
      rw [hresult] at hrun
      cases hrun
  | some offence =>
      rw [hmeets] at hrun
      cases of_report_run hrun
      rfl

/-- An attempt that meets an offence fails, if the hook comes to a verdict. -/
theorem Meets.exists_error {fault : Fault} {attempt : Attempt σ α}
    (h : attempt.Meets answers (some fault)) (registry : Registry σ)
    (hhook : ∀ before, ∃ verdict after,
      (registry.hook fault).runClosed answers before = some (verdict, after)) :
    ∃ after, attempt.run registry = some (.error fault, after) := by
  obtain ⟨middle, hframed, hrun⟩ := h registry
  obtain ⟨verdict, after, hverdict⟩ :=
    hhook { middle with consulted := middle.consulted ++ [fault] }
  have hconsult : consult answers fault middle = some (verdict, after) := by
    rw [← hframed.hook] at hverdict
    exact hverdict
  exact ⟨after, hrun.trans (run_bind_ok (run_lift hconsult))⟩

end Attempt

namespace Rule

open Attempt

variable (answers : Answers σ)

theorem buildScalar_meets (source : String) (default? : Option Value) :
    (buildScalar answers source default?).Meets answers
      (Fault.ofRefused (Descriptor.type source).refused?) := by
  rw [buildScalar, Descriptor.refused?]
  split
  · exact meets_report _
  · exact (meets_compile source).bind fun _ => meets_pure _

mutual

theorem build_meets (descriptor : Descriptor) :
    (build answers descriptor).Meets answers (Fault.ofRefused descriptor.refused?) := by
  match descriptor with
  | .type source => exact buildScalar_meets answers source none
  | .shape fields =>
      have h := (buildFields_meets fields).bind fun rules => meets_pure (Rule.shape rules none)
      rwa [Option.or_none] at h
  | .defaulted (.type source) default => exact buildScalar_meets answers source (some default)
  | .defaulted (.shape fields) default =>
      have h := (buildFields_meets fields).bind fun rules =>
        meets_pure (Rule.shape rules (some default))
      rwa [Option.or_none] at h
  | .defaulted (.defaulted inner first) second => exact meets_report _

theorem buildFields_meets (fields : List (String × Descriptor)) :
    (buildFields answers fields).Meets answers
      (Fault.ofRefused (Descriptor.refusedField? fields)) := by
  match fields with
  | [] => exact meets_pure []
  | (key, field) :: rest =>
      have h := (build_meets field).bind fun rule =>
        (buildFields_meets rest).bind fun rules => meets_pure ((key, rule) :: rules)
      rwa [Option.or_none, Fault.ofRefused, Fault.ofRefused, ← Option.map_or] at h

end

theorem buildAll_meets (descriptors : List Descriptor) :
    (buildAll answers descriptors).Meets answers
      (Fault.ofRefused (descriptors.findSome? Descriptor.refused?)) := by
  induction descriptors with
  | nil => exact meets_pure []
  | cons descriptor rest ih =>
      have h := (build_meets answers descriptor).bind fun rule =>
        ih.bind fun rules => meets_pure (rule :: rules)
      rw [Option.or_none, Fault.ofRefused, Fault.ofRefused, ← Option.map_or] at h
      rw [List.findSome?_cons, Fault.ofRefused]
      cases hrefused : descriptor.refused? with
      | none => rwa [hrefused, Option.none_or] at h
      | some bad => rwa [hrefused, Option.some_or] at h

/-- A rule is built of a descriptor unless there is one in it that is refused. -/
theorem exists_build_iff (descriptor : Descriptor) (registry : Registry σ) :
    (∃ rule built, (build answers descriptor).run registry = some (.ok rule, built)) ↔
      descriptor.refused? = none :=
  ((build_meets answers descriptor).exists_ok_iff registry).trans Option.map_eq_none_iff

end Rule

namespace Dispatcher

open Attempt

theorem buildRoutes_meets (answers : Answers σ) {position : Nat} (h : position % 2 = 0)
    (items : List (Item σ S)) :
    (buildRoutes answers position items).Meets answers (Item.firstOffence? position items) := by
  have hodd : ¬ (position + 1) % 2 = 0 := by omega
  have heven : (position + 2) % 2 = 0 := by omega
  match items with
  | [] =>
      rw [buildRoutes, Item.firstOffence?, if_pos h]
      exact meets_pure []
  | .behavior _ :: _ =>
      rw [buildRoutes, Item.firstOffence?, Item.offence?, if_pos h]
      exact meets_report _
  | .rules descriptors :: rest =>
      rw [buildRoutes, Item.firstOffence?, Item.offence?, if_pos h]
      refine (Rule.buildAll_meets answers descriptors).bind fun rules => ?_
      match rest with
      | [] =>
          rw [Item.firstOffence?, if_neg hodd, Nat.add_sub_cancel]
          exact meets_report _
      | .rules _ :: _ =>
          rw [Item.firstOffence?, Item.offence?, if_neg hodd]
          exact meets_report _
      | .behavior body :: rest =>
          rw [Item.firstOffence?, Item.offence?, if_neg hodd, Option.none_or]
          have hrest := (buildRoutes_meets answers heven rest).bind fun routes =>
            meets_pure (Route.mk rules body :: routes)
          rwa [Option.or_none] at hrest

/-- There is no offence in a sequence of rules and behaviors in turn, of descriptors that are
not refused, and in no other sequence. -/
theorem firstOffence?_eq_none_iff {position : Nat} (h : position % 2 = 0)
    {items : List (Item σ S)} :
    Item.firstOffence? position items = none ↔ ∃ routes, items = itemsOfRoutes routes ∧
      ∀ route ∈ routes, ∀ descriptor ∈ route.1, descriptor.refused? = none := by
  have hodd : ¬ (position + 1) % 2 = 0 := by omega
  have heven : (position + 2) % 2 = 0 := by omega
  match items with
  | [] =>
      rw [Item.firstOffence?, if_pos h]
      exact iff_of_true rfl ⟨[], rfl, fun _ hroute => nomatch hroute⟩
  | .behavior _ :: _ =>
      rw [Item.firstOffence?, Item.offence?, if_pos h]
      refine iff_of_false (Option.some_ne_none _) ?_
      rintro ⟨_ | _, hitems, _⟩ <;> cases hitems
  | [.rules _] =>
      rw [Item.firstOffence?, Item.firstOffence?, if_neg hodd]
      refine iff_of_false (by simp) ?_
      rintro ⟨_ | _, hitems, _⟩ <;> cases hitems
  | .rules _ :: .rules _ :: _ =>
      rw [Item.firstOffence?, Item.firstOffence?, Item.offence?, Item.offence?, if_neg hodd]
      refine iff_of_false (by simp) ?_
      rintro ⟨_ | _, hitems, _⟩ <;> cases hitems
  | .rules descriptors :: .behavior body :: rest =>
      rw [Item.firstOffence?, Item.firstOffence?, Item.offence?, Item.offence?, if_pos h,
        if_neg hodd, Option.none_or, Option.or_eq_none_iff, Fault.ofRefused,
        Option.map_eq_none_iff, List.findSome?_eq_none_iff, firstOffence?_eq_none_iff heven]
      constructor
      · rintro ⟨hdescriptors, routes, rfl, hroutes⟩
        exact ⟨(descriptors, body) :: routes, rfl, List.forall_mem_cons.mpr ⟨hdescriptors, hroutes⟩⟩
      · rintro ⟨_ | ⟨⟨first, firstBody⟩, routes⟩, hitems, hroutes⟩
        · cases hitems
        · cases hitems
          obtain ⟨hfirst, hrest⟩ := List.forall_mem_cons.mp hroutes
          exact ⟨hfirst, routes, rfl, hrest⟩

end Dispatcher

end Switchboard
