import Switchboard.Proofs.Dispatch.Offences

/-!
Growing tables. A table reads an item sequence from left to right, with the rules that wait for
their behavior and the position they stand at, and writes the new routes behind its own when
the whole sequence has been read. It accepts the sequences of rules and behaviors in turn, of
descriptors that rules can be built of, and stays as it was at any other, which it refuses for
the leftmost offence. Two sequences that are accepted one after the other are accepted as one;
and a new table, item by item or route by route, is an empty table that has grown.
-/

namespace Switchboard

variable {σ S α : Type}

/-- An attempt that may write to a table. What it has written before a fault stays written. -/
abbrev Growing (σ S α : Type) : Type :=
  ExceptT Fault (StateT (Dispatcher σ S) (StateT (Registry σ) Option)) α

/-- An attempt that leaves the table alone. -/
def Growing.ofAttempt (attempt : Attempt σ α) : Growing σ S α :=
  ExceptT.mk fun table registry =>
    (attempt.run registry).map fun (outcome, after) => ((outcome, table), after)

namespace Dispatcher

/-- Read items from a position on, given the rules that wait for their behavior, with their
position, and the routes so far. -/
def gather (answers : Answers σ) : Nat → Option (Nat × List Rule) → List (Route σ S) →
    List (Item σ S) → Attempt σ (List (Route σ S))
  | _, none, routes, [] => return routes
  | _, some (position, _), _, [] => report answers (.invalidRoute position .missingBehavior)
  | position, none, routes, .rules descriptors :: rest => do
      let rules ← Rule.buildAll answers descriptors
      gather answers (position + 1) (some (position, rules)) routes rest
  | position, some (_, rules), routes, .behavior body :: rest =>
      gather answers (position + 1) none (routes ++ [⟨rules, body⟩]) rest
  | position, some _, _, .rules _ :: _ =>
      report answers (.invalidRoute position .rulesBeforeBehavior)
  | position, none, _, .behavior _ :: _ =>
      report answers (.invalidRoute position .behaviorBeforeRules)

/-- Extend a table that is written to when all items have been read. -/
def extendInPlace (answers : Answers σ) (items : List (Item σ S)) : Growing σ S Unit := do
  let routes ← Growing.ofAttempt (gather answers 0 none [] items)
  modify fun table : Dispatcher σ S => ⟨table.routes ++ routes⟩

/-- A table that is put together route by route. -/
structure Builder (σ S : Type) where
  items : List (Item σ S)

namespace Builder

def empty : Builder σ S := ⟨[]⟩

/-- Add rules and their behavior. -/
def route (builder : Builder σ S) (descriptors : List Descriptor) (body : Behavior σ S) :
    Builder σ S :=
  ⟨builder.items ++ [.rules descriptors, .behavior body]⟩

/-- The builder that a list of routes is added to, one after the other. -/
def addAll (routes : List (List Descriptor × Behavior σ S)) (builder : Builder σ S) :
    Builder σ S :=
  routes.foldl (fun builder (descriptors, body) => builder.route descriptors body) builder

def build (answers : Answers σ) (builder : Builder σ S) : Attempt σ (Dispatcher σ S) :=
  ofItems answers builder.items

theorem items_addAll (routes : List (List Descriptor × Behavior σ S)) (builder : Builder σ S) :
    (builder.addAll routes).items = builder.items ++ itemsOfRoutes routes := by
  induction routes generalizing builder with
  | nil => exact (List.append_nil _).symm
  | cons route rest ih =>
      change ((builder.route route.1 route.2).addAll rest).items = _
      rw [ih]
      exact List.append_assoc _ _ _

end Builder

/-- Reading items after some routes adds their routes to these. -/
theorem gather_eq (answers : Answers σ) (position : Nat) (routes : List (Route σ S))
    (items : List (Item σ S)) :
    gather answers position none routes items = (do
      let more ← buildRoutes answers position items
      return routes ++ more) := by
  match items with
  | [] => simp [gather, buildRoutes]
  | .behavior _ :: _ => rw [gather, buildRoutes, report_bind]
  | [.rules descriptors] =>
      simp only [gather, buildRoutes, bind_assoc, report_bind]
  | .rules descriptors :: .rules _ :: _ =>
      simp only [gather, buildRoutes, bind_assoc, report_bind]
  | .rules descriptors :: .behavior body :: rest =>
      simp only [gather, buildRoutes, bind_assoc, gather_eq answers (position + 2), pure_bind,
        List.append_assoc, List.singleton_append]

/-- The table after an extension: the extended one, or the same as before. -/
def tableAfter (table : Dispatcher σ S) : Except Fault (Dispatcher σ S) → Dispatcher σ S
  | .ok extended => extended
  | .error _ => table

theorem extendInPlace_run (answers : Answers σ) (items : List (Item σ S))
    (table : Dispatcher σ S) (registry : Registry σ) :
    (extendInPlace answers items).run table registry =
      ((table.extend answers items).run registry).map fun (outcome, after) =>
        ((outcome.map fun _ => (), table.tableAfter outcome), after) := by
  have hgather : gather answers 0 none [] items = buildRoutes answers 0 items := by
    rw [gather_eq]
    simp only [List.nil_append, bind_pure]
  rw [extendInPlace, hgather]
  change (((buildRoutes answers 0 items).run registry).map _).bind _ =
    (((buildRoutes answers 0 items).run registry).bind _).map _
  rcases (buildRoutes answers 0 items).run registry with _ | ⟨_ | routes, after⟩ <;> rfl

/-- The rules of several routes, each list of them built in its turn. -/
def rulesInTurn (answers : Answers σ) (routes : List (List Descriptor × Behavior σ S)) :
    List (Attempt σ (List Rule)) :=
  routes.map fun route => Rule.buildAll answers route.1

/-- Routes that are made of these descriptions: their rules are built in turn, and their
behaviors are those described. -/
def Realizes (answers : Answers σ) (described : List (List Descriptor × Behavior σ S))
    (registry : Registry σ) (routes : List (Route σ S)) (after : Registry σ) : Prop :=
  routes.map Route.behavior = described.map Prod.snd ∧
    Attempt.InTurn (rulesInTurn answers described) registry (routes.map Route.rules) after

/-- Building a sequence that describes routes makes routes of the descriptions. -/
theorem exists_of_buildRoutes {answers : Answers σ} {position : Nat} {items : List (Item σ S)}
    {registry after : Registry σ} {routes : List (Route σ S)}
    (h : (buildRoutes answers position items).run registry = some (.ok routes, after)) :
    ∃ described, items = itemsOfRoutes described ∧
      Realizes answers described registry routes after := by
  match items with
  | [] =>
      obtain ⟨heq, rfl⟩ := Attempt.run_pure_eq_some_iff.mp h
      cases heq
      exact ⟨[], rfl, rfl, .nil after⟩
  | .behavior _ :: _ => cases of_report_run h
  | [.rules _] =>
      rw [buildRoutes] at h
      rcases Attempt.run_bind_eq_some_iff.mp h with ⟨_, _, ⟨⟩⟩ | ⟨_, _, _, hreport⟩
      cases of_report_run hreport
  | .rules _ :: .rules _ :: _ =>
      rw [buildRoutes] at h
      rcases Attempt.run_bind_eq_some_iff.mp h with ⟨_, _, ⟨⟩⟩ | ⟨_, _, _, hreport⟩
      cases of_report_run hreport
  | .rules descriptors :: .behavior body :: rest =>
      rw [buildRoutes] at h
      rcases Attempt.run_bind_eq_some_iff.mp h with ⟨_, _, ⟨⟩⟩ | ⟨rules, middle, hrules, hrest⟩
      rcases Attempt.run_bind_eq_some_iff.mp hrest with ⟨_, _, ⟨⟩⟩ | ⟨more, last, hmore, hlast⟩
      obtain ⟨heq, rfl⟩ := Attempt.run_pure_eq_some_iff.mp hlast
      cases heq
      obtain ⟨described, rfl, hbodies, hturn⟩ := exists_of_buildRoutes hmore
      exact ⟨(descriptors, body) :: described, rfl, congrArg (body :: ·) hbodies,
        .cons hrules hturn⟩

/-- Routes that can be made of descriptions are built of them, wherever they stand. -/
theorem Realizes.buildRoutes {answers : Answers σ}
    {described : List (List Descriptor × Behavior σ S)} {registry after : Registry σ}
    {routes : List (Route σ S)} (h : Realizes answers described registry routes after)
    (position : Nat) :
    (buildRoutes answers position (itemsOfRoutes described)).run registry =
      some (.ok routes, after) := by
  induction described generalizing position registry routes with
  | nil =>
      obtain ⟨hbodies, hturn⟩ := h
      obtain rfl := List.map_eq_nil_iff.mp hbodies
      obtain ⟨_, rfl⟩ := Attempt.inTurn_nil_iff.mp hturn
      rfl
  | cons first described ih =>
      obtain ⟨hbodies, hturn⟩ := h
      obtain ⟨rules, others, middle, hrules, hrun, hrest⟩ := Attempt.inTurn_cons_iff.mp hturn
      obtain ⟨route, rest, rfl, hbody, hbodies⟩ := List.map_eq_cons_iff.mp hbodies
      obtain ⟨rfl, rfl⟩ := List.cons.inj hrules
      have hmore := ih ⟨hbodies, hrest⟩ (position + 2)
      change (Dispatcher.buildRoutes answers position
        (.rules first.1 :: .behavior first.2 :: itemsOfRoutes described)).run registry = _
      rw [Dispatcher.buildRoutes, Attempt.run_bind_ok hrun, Attempt.run_bind_ok hmore, ← hbody]
      rfl

/-- Routes that are made one after the other. -/
theorem Realizes.append {answers : Answers σ}
    {described more : List (List Descriptor × Behavior σ S)}
    {registry middle after : Registry σ} {routes others : List (Route σ S)}
    (h : Realizes answers described registry routes middle)
    (hmore : Realizes answers more middle others after) :
    Realizes answers (described ++ more) registry (routes ++ others) after := by
  refine ⟨by rw [List.map_append, List.map_append, h.1, hmore.1], ?_⟩
  rw [rulesInTurn, List.map_append, List.map_append]
  exact h.2.append hmore.2

/-- The sequences of rules and behaviors in turn, of descriptors that rules are built of. -/
def Accepts (answers : Answers σ) (registry : Registry σ) (items : List (Item σ S)) : Prop :=
  ∃ described, items = itemsOfRoutes described ∧ ∀ route ∈ described, ∀ descriptor ∈ route.1,
    ∃ rule built, (Rule.build answers descriptor).run registry = some (.ok rule, built)

variable {answers : Answers σ} {registry : Registry σ} {items : List (Item σ S)}

theorem accepts_iff : Accepts answers registry items ↔ Item.firstOffence? 0 items = none := by
  simp only [Accepts, Rule.exists_build_iff, firstOffence?_eq_none_iff (Nat.zero_mod 2)]

/-- An accepted sequence describes routes, which are made in every registry. -/
theorem Accepts.exists_realizes (h : Accepts answers registry items) (other : Registry σ) :
    ∃ described routes after, items = itemsOfRoutes described ∧
      Realizes answers described other routes after := by
  obtain ⟨routes, after, hrun⟩ :=
    ((buildRoutes_meets answers (Nat.zero_mod 2) items).exists_ok_iff other).mpr (accepts_iff.mp h)
  obtain ⟨described, hitems, hroutes⟩ := exists_of_buildRoutes hrun
  exact ⟨described, routes, after, hitems, hroutes⟩

/-- The routes of the descriptions go behind those of the table. -/
theorem Realizes.extendInPlace_run {described : List (List Descriptor × Behavior σ S)}
    {routes : List (Route σ S)} {after : Registry σ}
    (h : Realizes answers described registry routes after) (table : Dispatcher σ S) :
    (extendInPlace answers (itemsOfRoutes described)).run table registry =
      some ((.ok (), ⟨table.routes ++ routes⟩), after) := by
  rw [Dispatcher.extendInPlace_run, extend, Attempt.run_bind_ok (h.buildRoutes 0)]
  rfl

theorem itemsOfRoutes_append (described more : List (List Descriptor × Behavior σ S)) :
    itemsOfRoutes (described ++ more) = itemsOfRoutes described ++ itemsOfRoutes more :=
  List.flatMap_append

/-- Extending by two accepted sequences in turn is extending by both as one. -/
theorem Accepts.extendInPlace_append {more : List (Item σ S)}
    (h : Accepts answers registry items) (hmore : Accepts answers registry more)
    (table : Dispatcher σ S) :
    (do
      extendInPlace answers items
      extendInPlace answers more).run table registry =
      (extendInPlace answers (items ++ more)).run table registry := by
  obtain ⟨described, routes, middle, rfl, hroutes⟩ := h.exists_realizes registry
  obtain ⟨describedMore, others, after, rfl, hothers⟩ := hmore.exists_realizes middle
  rw [← itemsOfRoutes_append, (hroutes.append hothers).extendInPlace_run]
  change ((extendInPlace answers (itemsOfRoutes described)).run table registry).bind _ = _
  rw [hroutes.extendInPlace_run]
  change (extendInPlace answers (itemsOfRoutes describedMore)).run _ middle = _
  rw [hothers.extendInPlace_run, List.append_assoc]

theorem ofItems_run (answers : Answers σ) (items : List (Item σ S)) (registry : Registry σ) :
    (ofItems answers items).run registry =
      ((extendInPlace answers items).run empty registry).map fun ((outcome, extended), after) =>
        (outcome.map fun _ => extended, after) := by
  rw [extendInPlace_run, ofItems]
  rcases (empty.extend answers items).run registry with _ | ⟨_ | extended, after⟩ <;> rfl

/-- What an extension comes to, by what building the routes comes to. -/
theorem extendInPlace_eq_some_iff {table extended : Dispatcher σ S} {after : Registry σ}
    {outcome : Except Fault Unit} :
    (extendInPlace answers items).run table registry = some ((outcome, extended), after) ↔
      (∃ fault, (buildRoutes answers 0 items).run registry = some (.error fault, after) ∧
        outcome = .error fault ∧ extended = table) ∨
      ∃ routes, (buildRoutes answers 0 items).run registry = some (.ok routes, after) ∧
        outcome = .ok () ∧ extended = ⟨table.routes ++ routes⟩ := by
  rw [extendInPlace_run, extend]
  change (((buildRoutes answers 0 items).run registry).bind _).map _ = _ ↔ _
  rcases (buildRoutes answers 0 items).run registry with _ | ⟨fault | routes, last⟩
  · simp
  · constructor
    · rintro ⟨⟩
      exact Or.inl ⟨fault, rfl, rfl, rfl⟩
    · rintro (⟨_, ⟨⟩, rfl, rfl⟩ | ⟨_, ⟨⟩, _⟩)
      rfl
  · constructor
    · rintro ⟨⟩
      exact Or.inr ⟨routes, rfl, rfl, rfl⟩
    · rintro (⟨_, ⟨⟩, _⟩ | ⟨_, ⟨⟩, rfl, rfl⟩)
      rfl

/-- A table accepts exactly the sequences of rules and behaviors in turn, of descriptors that
rules are built of, and then has their routes behind its own. At any other sequence it stays as
it was, and the fault is the leftmost offence, as soon as the hook comes to a verdict on it.
Sequences that are accepted one after the other are accepted as one; a table that is made of a
sequence is the empty table extended by it, and so is a table that is put together route by
route. -/
theorem extendInPlace_all_or_nothing (answers : Answers σ) (table : Dispatcher σ S)
    (items : List (Item σ S)) (registry : Registry σ) :
    let run := (extendInPlace answers items).run
    ((∃ extended after, run table registry = some ((.ok (), extended), after)) ↔
      Accepts answers registry items) ∧
    (∀ extended after, run table registry = some ((.ok (), extended), after) →
      ∃ described routes, items = itemsOfRoutes described ∧
        Realizes answers described registry routes after ∧
          extended.routes = table.routes ++ routes) ∧
    (∀ fault extended after, run table registry = some ((.error fault, extended), after) →
      extended = table ∧ Item.firstOffence? 0 items = some fault) ∧
    (¬ Accepts answers registry items → ∃ fault, Item.firstOffence? 0 items = some fault ∧
      ((∀ before, ∃ verdict after,
          (registry.hook fault).runClosed answers before = some (verdict, after)) →
        ∃ after, run table registry = some ((.error fault, table), after))) ∧
    (∀ more, Accepts answers registry items → Accepts answers registry more →
      (do
        extendInPlace answers items
        extendInPlace answers more).run table registry =
        (extendInPlace answers (items ++ more)).run table registry) ∧
    (ofItems answers items).run registry = (run empty registry).map
      (fun ((outcome, extended), after) => (outcome.map fun _ => extended, after)) ∧
    ∀ described, items = itemsOfRoutes described →
      (Builder.empty.addAll described).build answers = ofItems answers items := by
  intro run
  have hmeets := buildRoutes_meets answers (Nat.zero_mod 2) items
  refine ⟨?_, fun extended after hrun => ?_, fun fault extended after hrun => ?_,
    fun hrefused => ?_, fun more h hmore => h.extendInPlace_append hmore table,
    ofItems_run answers items registry, ?_⟩
  · rw [accepts_iff, ← hmeets.exists_ok_iff registry]
    constructor
    · rintro ⟨extended, after, hrun⟩
      rcases extendInPlace_eq_some_iff.mp hrun with ⟨_, _, ⟨⟩, _⟩ | ⟨routes, hroutes, _⟩
      exact ⟨routes, after, hroutes⟩
    · rintro ⟨routes, after, hroutes⟩
      exact ⟨_, after, extendInPlace_eq_some_iff.mpr (Or.inr ⟨routes, hroutes, rfl, rfl⟩)⟩
  · rcases extendInPlace_eq_some_iff.mp hrun with ⟨_, _, ⟨⟩, _⟩ | ⟨routes, hroutes, _, rfl⟩
    obtain ⟨described, hitems, hmade⟩ := exists_of_buildRoutes hroutes
    exact ⟨described, routes, hitems, hmade, rfl⟩
  · rcases extendInPlace_eq_some_iff.mp hrun with ⟨_, hfault, ⟨⟩, rfl⟩ | ⟨_, _, ⟨⟩, _⟩
    exact ⟨rfl, hmeets.of_run_error hfault⟩
  · obtain ⟨fault, hfault⟩ := Option.ne_none_iff_exists'.mp (mt accepts_iff.mpr hrefused)
    refine ⟨fault, hfault, fun hhook => ?_⟩
    rw [hfault] at hmeets
    obtain ⟨after, hrun⟩ := hmeets.exists_error registry hhook
    exact ⟨after, extendInPlace_eq_some_iff.mpr (Or.inl ⟨fault, hrun, rfl, rfl⟩)⟩
  · rintro described rfl
    rw [Builder.build, Builder.items_addAll]
    rfl

/-- Rules without a behavior behind an accepted route leave the table as it was, and so does a
blank field in front of a misplaced behavior. -/
theorem extendInPlace_all_or_nothing_refusals :
    let body : Behavior Unit Unit := fun _ => .done (.ok .undefined)
    let table : Dispatcher Unit Unit := ⟨[⟨[.scalar "any" (.named "any") none], body⟩]⟩
    let registry := Registry.new .standard ()
    let run (items : List (Item Unit Unit)) := (extendInPlace .exceeded items).run table registry
    let blank : Descriptor := .shape [("size", .type "int"), ("name", .type " ")]
    (∃ after, run [.rules [.type "int"], .behavior body, .rules [.type "int"]] =
      some ((.error (.invalidRoute 2 .missingBehavior), table), after)) ∧
    ∃ after, run [.rules [.type "int"], .behavior body, .rules [blank], .behavior body,
      .behavior body] = some ((.error (.invalidRule "\" \""), table), after) := by
  intro body table registry run blank
  have hhook (fault : Fault) (before : Registry Unit) : ∃ verdict after,
      (registry.hook fault).runClosed .exceeded before = some (verdict, after) := ⟨_, _, rfl⟩
  have hrefusal (items : List (Item Unit Unit)) (fault : Fault)
      (hfault : Item.firstOffence? 0 items = some fault) :
      ∃ after, run items = some ((.error fault, table), after) := by
    obtain ⟨_, _, _, hrefused, _⟩ := extendInPlace_all_or_nothing .exceeded table items registry
    obtain ⟨found, hfound, herror⟩ :=
      hrefused fun haccepts => by simp [accepts_iff.mp haccepts] at hfault
    cases hfault.symm.trans hfound
    exact herror (hhook fault)
  exact ⟨hrefusal _ _ (by decide +kernel), hrefusal _ _ (by decide +kernel)⟩

end Dispatcher

end Switchboard
