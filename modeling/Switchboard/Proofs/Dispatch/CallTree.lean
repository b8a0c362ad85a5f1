import Switchboard.Proofs.Dispatch.InTurn

/-!
The tree of a call. A running behavior makes requests, and each of them may start a further
behavior, so one call of a table starts a tree of behaviors. A behavior of the tree is always
that of the route at the ordinal of its handle, under the scope of the call. The tree is all
that counts: what the behaviors of a table would do on other handles does not matter.
-/

namespace Switchboard

variable {ι σ S α β : Type}

theorem Attempt.run_bind_none {attempt : Attempt σ α} {next : α → Attempt σ β}
    {registry : Registry σ} (h : attempt.run registry = none) :
    (attempt >>= next).run registry = none := by
  change (attempt.run registry).bind _ = _
  rw [h]
  rfl

/-- The requests that a program makes as it runs, each with the registry that it is made in. -/
def Program.requests (answers : Answers σ) (call : ι → Run σ (Except Fault Value)) :
    Program ι σ α → Registry σ → List (ι × Registry σ)
  | .done _, _ => []
  | .evaluate source value next, registry =>
      match answers.evaluate source value registry with
      | some (answer, after) => (next answer).requests answers call after
      | none => []
  | .bindAlias overriding name source next, registry =>
      match answers.bindAlias overriding name source registry with
      | some (answer, after) => (next answer).requests answers call after
      | none => []
  | .readState next, registry => (next registry.state).requests answers call registry
  | .writeState state next, registry =>
      next.requests answers call { registry with state := state }
  | .call request next, registry =>
      (request, registry) ::
        match call request registry with
        | some (answer, after) => (next answer).requests answers call after
        | none => []

/-- How requests are met matters for those that are made, and for no others. -/
theorem Program.run_congr {answers : Answers σ} {call other : ι → Run σ (Except Fault Value)}
    {program : Program ι σ α} {registry : Registry σ}
    (h : ∀ made ∈ program.requests answers call registry,
      other made.1 made.2 = call made.1 made.2) :
    program.run answers other registry = program.run answers call registry := by
  induction program generalizing registry with
  | done result => rfl
  | evaluate source value next ih =>
      change (answers.evaluate source value registry).bind _ =
        (answers.evaluate source value registry).bind _
      rw [requests] at h
      cases hanswer : answers.evaluate source value registry with
      | none => rfl
      | some ended =>
          rw [hanswer] at h
          exact ih ended.1 h
  | bindAlias overriding name source next ih =>
      change (answers.bindAlias overriding name source registry).bind _ =
        (answers.bindAlias overriding name source registry).bind _
      rw [requests] at h
      cases hanswer : answers.bindAlias overriding name source registry with
      | none => rfl
      | some ended =>
          rw [hanswer] at h
          exact ih ended.1 h
  | readState next ih => exact ih registry.state h
  | writeState state next ih => exact ih h
  | call request next ih =>
      rw [requests, List.forall_mem_cons] at h
      change (other request registry).bind _ = (call request registry).bind _
      rw [h.1]
      cases hanswer : call request registry with
      | none => rfl
      | some ended =>
          have hrest := h.2
          rw [hanswer] at hrest
          exact ih ended.1 hrest

namespace Dispatcher

/-- How a call comes to a table: dispatched, or to the behavior at an ordinal. -/
inductive Entry where
  | dispatch (arguments : List Value)
  | invoke (ordinal : Nat) (arguments : List Value)

/-- Where a request of the behavior at an ordinal comes in; nowhere if there is no behavior
before. -/
def target? : Nat → Request → Option Entry
  | _, .first arguments => some (.invoke 0 arguments)
  | 0, .previous _ => none
  | ordinal + 1, .previous arguments => some (.invoke ordinal arguments)
  | _, .dispatch arguments => some (.dispatch arguments)

/-- A behavior that is started with a handle, in a registry, and with a bound on how deep its
requests nest. -/
structure Activation (σ S : Type) where
  behavior : Behavior σ S
  call : Call S
  registry : Registry σ
  nesting : Nat

variable (answers : Answers σ) (table : Dispatcher σ S) (scope : S)

/-- A call, with a bound on how deep the requests of the behavior that it starts nest. -/
def enter (nesting : Nat) : Entry → Attempt σ Value
  | .dispatch arguments =>
      table.dispatchWith answers (table.handoverUpTo answers scope nesting) scope arguments
  | .invoke ordinal arguments =>
      table.invokeWith answers (table.handoverUpTo answers scope nesting) ordinal scope arguments

/-- The behavior that a call starts, if it starts one. -/
def opening? (nesting : Nat) : Entry → Registry σ → Option (Activation σ S)
  | .dispatch arguments, registry =>
      match (select answers arguments 0 table.routes).run registry with
      | some (.ok (some (ordinal, route, settled)), after) =>
          some ⟨route.behavior, ⟨scope, ordinal, settled⟩, after, nesting⟩
      | _ => none
  | .invoke ordinal arguments, registry =>
      table.routes[ordinal]?.map fun route =>
        ⟨route.behavior, ⟨scope, ordinal, arguments⟩, registry, nesting⟩

/-- A started behavior is that of a route of the table, the one at the ordinal of its handle,
and it is under the scope of the call. -/
structure InPlace (started : Activation σ S) : Prop where
  route : ∃ route, table.routes[started.call.ordinal]? = some route ∧
    started.behavior = route.behavior
  bound : started.call.ordinal < table.routes.length
  scope : started.call.scope = scope

/-- The requests that a started behavior makes. -/
def Activation.requests (parent : Activation σ S) : List (Request × Registry σ) :=
  (parent.behavior parent.call).requests answers
    (table.handoverUpTo answers scope parent.nesting parent.call.ordinal) parent.registry

/-- What a started behavior comes to. -/
def Activation.run (started : Activation σ S) : Option (Except Fault Value × Registry σ) :=
  (started.behavior started.call).run answers
    (table.handoverUpTo answers scope started.nesting started.call.ordinal) started.registry

/-- The behavior that a request starts, if it starts one. -/
def child? (parent : Activation σ S) (made : Request × Registry σ) : Option (Activation σ S) :=
  match parent.nesting with
  | 0 => none
  | nesting + 1 =>
      (target? parent.call.ordinal made.1).bind fun entry =>
        table.opening? answers scope nesting entry made.2

/-- The behaviors that a call starts, by itself and through the requests of those that it has
started. -/
inductive Started (nesting : Nat) (entry : Entry) (registry : Registry σ) :
    Activation σ S → Prop
  | opened {started : Activation σ S}
      (h : table.opening? answers scope nesting entry registry = some started) :
      Started nesting entry registry started
  | requested {parent started : Activation σ S} {made : Request × Registry σ}
      (hparent : Started nesting entry registry parent)
      (hmade : made ∈ parent.requests answers table scope)
      (h : table.child? answers scope parent made = some started) :
      Started nesting entry registry started

/-- Some behaviors of which the first is started by a request of a given one for the previous
behavior, and each other by such a request of the one before it. -/
inductive PreviousChain : Activation σ S → List (Activation σ S) → Prop
  | nil (last : Activation σ S) : PreviousChain last []
  | cons {parent started : Activation σ S} {rest : List (Activation σ S)}
      {arguments : List Value} {registry : Registry σ}
      (hmade : (.previous arguments, registry) ∈ parent.requests answers table scope)
      (h : table.child? answers scope parent (.previous arguments, registry) = some started)
      (hrest : PreviousChain started rest) :
      PreviousChain parent (started :: rest)

variable {answers table scope} {nesting ordinal : Nat} {entry : Entry} {request : Request}
  {registry : Registry σ} {parent started : Activation σ S}

/-! What a request comes to -/

/-- A request that comes in somewhere is a call with one level less. -/
theorem handoverUpTo_of_entry (h : target? ordinal request = some entry) :
    table.handoverUpTo answers scope (nesting + 1) ordinal request =
      (table.enter answers scope nesting entry).run := by
  cases request with
  | first arguments =>
      cases h
      rfl
  | previous arguments =>
      cases ordinal with
      | zero => cases h
      | succ before =>
          cases h
          rfl
  | dispatch arguments =>
      have hentry : some (Entry.dispatch arguments) = some entry := by
        rw [← h]
        cases ordinal <;> rfl
      cases hentry
      cases ordinal <;> rfl

/-- A request that comes in nowhere is for the behavior before the first one; the hook is shown
a fault, which is the answer whatever the verdict. -/
theorem handoverUpTo_of_none (h : target? ordinal request = none) :
    table.handoverUpTo answers scope (nesting + 1) ordinal request = fun registry =>
      (consult answers (.noPreviousRoute 0) registry).map fun shown =>
        (.error (.noPreviousRoute 0), shown.2) := by
  cases request with
  | first arguments => cases h
  | previous arguments =>
      cases ordinal with
      | zero =>
          funext registry
          change ((consult answers (.noPreviousRoute 0) registry).bind _).bind _ = _
          cases consult answers (.noPreviousRoute 0) registry <;> rfl
      | succ before => cases h
  | dispatch arguments => cases ordinal <;> cases h

/-- A behavior is started with the ordinal of its route, under the scope of the call. -/
theorem inPlace_of_opening
    (h : table.opening? answers scope nesting entry registry = some started) :
    InPlace table scope started := by
  have hinPlace {ordinal : Nat} {route : Route σ S}
      (hroute : table.routes[ordinal]? = some route) (arguments : List Value)
      (after : Registry σ) :
      InPlace table scope ⟨route.behavior, ⟨scope, ordinal, arguments⟩, after, nesting⟩ :=
    ⟨⟨route, hroute, rfl⟩, (List.getElem?_eq_some_iff.mp hroute).1, rfl⟩
  cases entry with
  | dispatch arguments =>
      rw [opening?] at h
      split at h
      · next ordinal route settled after hselect =>
          cases h
          obtain ⟨refused, hordinal, hroute, _⟩ := select_eq_some_iff.mp hselect
          rw [Nat.zero_add] at hordinal
          exact hinPlace (hordinal ▸ hroute) settled after
      · cases h
  | invoke ordinal arguments =>
      rw [opening?, Option.map_eq_some_iff] at h
      obtain ⟨route, hroute, rfl⟩ := h
      exact hinPlace hroute arguments registry

/-- Its requests may nest as deep as the call says. -/
theorem nesting_of_opening
    (h : table.opening? answers scope nesting entry registry = some started) :
    started.nesting = nesting := by
  cases entry with
  | dispatch arguments =>
      rw [opening?] at h
      split at h
      · cases h
        rfl
      · cases h
  | invoke ordinal arguments =>
      rw [opening?, Option.map_eq_some_iff] at h
      obtain ⟨route, _, rfl⟩ := h
      rfl

/-- The call of a request runs with one level less than the requests of its behavior. -/
theorem opening_of_child {made : Request × Registry σ}
    (h : table.child? answers scope parent made = some started) :
    ∃ nesting entry, parent.nesting = nesting + 1 ∧
      target? parent.call.ordinal made.1 = some entry ∧
      table.opening? answers scope nesting entry made.2 = some started := by
  rw [child?] at h
  split at h
  · cases h
  · next nesting hnesting =>
      obtain ⟨entry, hentry, hopening⟩ := Option.bind_eq_some_iff.mp h
      exact ⟨nesting, entry, hnesting, hentry, hopening⟩

/-- A call that starts a behavior runs it. -/
theorem enter_run_of_opening
    (h : table.opening? answers scope nesting entry registry = some started) :
    (table.enter answers scope nesting entry).run registry = started.run answers table scope := by
  cases entry with
  | dispatch arguments =>
      rw [opening?] at h
      split at h
      · next ordinal route settled after hselect =>
          cases h
          rw [enter, dispatchWith, Attempt.run_bind_ok hselect]
          rfl
      · cases h
  | invoke ordinal arguments =>
      rw [opening?, Option.map_eq_some_iff] at h
      obtain ⟨route, hroute, rfl⟩ := h
      rw [enter, invokeWith, hroute]
      rfl

/-! Other behaviors -/

variable (table) in
/-- The table with other behaviors under its rules. -/
def withBehaviors (behaviors : Nat → Behavior σ S) : Dispatcher σ S :=
  ⟨table.routes.mapIdx fun ordinal route => ⟨route.rules, behaviors ordinal⟩⟩

theorem select_mapIdx (behaviors : Nat → Behavior σ S) (arguments : List Value)
    (start : Nat) (routes : List (Route σ S)) :
    select answers arguments start
        (routes.mapIdx fun position route => ⟨route.rules, behaviors (start + position)⟩) =
      (Option.map fun found => (found.1, ⟨found.2.1.rules, behaviors found.1⟩, found.2.2)) <$>
        select answers arguments start routes := by
  induction routes generalizing start with
  | nil => rw [List.mapIdx_nil, select, map_pure, Option.map_none]
  | cons route rest ih =>
      rw [List.mapIdx_cons, select, select, map_bind]
      refine bind_congr fun settled? => ?_
      cases settled? with
      | some settled => rw [map_pure]; rfl
      | none =>
          rw [← ih (start + 1)]
          simp only [Nat.add_assoc, Nat.add_comm 1]

/-- Which route is selected is up to the rules. -/
theorem select_withBehaviors (behaviors : Nat → Behavior σ S) (arguments : List Value) :
    select answers arguments 0 (table.withBehaviors behaviors).routes =
      (Option.map fun found => (found.1, ⟨found.2.1.rules, behaviors found.1⟩, found.2.2)) <$>
        select answers arguments 0 table.routes := by
  rw [← select_mapIdx]
  simp only [Nat.zero_add]
  rfl

/-- A call runs alike with other behaviors if that which it starts does the same there, and if
its requests are met alike. -/
theorem enter_withBehaviors_of_opening {behaviors : Nat → Behavior σ S}
    (h : ∀ started, table.opening? answers scope nesting entry registry = some started →
      behaviors started.call.ordinal started.call = started.behavior started.call ∧
        ∀ made ∈ started.requests answers table scope,
          (table.withBehaviors behaviors).handoverUpTo answers scope nesting
              started.call.ordinal made.1 made.2 =
            table.handoverUpTo answers scope nesting started.call.ordinal made.1 made.2) :
    ((table.withBehaviors behaviors).enter answers scope nesting entry).run registry =
      (table.enter answers scope nesting entry).run registry := by
  have hstarted {started : Activation σ S}
      (hopening : table.opening? answers scope nesting entry registry = some started) :
      (behaviors started.call.ordinal started.call).run answers
          ((table.withBehaviors behaviors).handoverUpTo answers scope nesting
            started.call.ordinal) started.registry =
        (started.behavior started.call).run answers
          (table.handoverUpTo answers scope nesting started.call.ordinal) started.registry := by
    obtain ⟨hbehavior, hrequests⟩ := h started hopening
    obtain rfl := nesting_of_opening hopening
    rw [hbehavior]
    exact Program.run_congr hrequests
  cases entry with
  | dispatch arguments =>
      rw [enter, enter, dispatchWith, dispatchWith, select_withBehaviors, bind_map_left]
      rcases hrun : (select answers arguments 0 table.routes).run registry with
        _ | ⟨fault | found?, after⟩
      · rw [Attempt.run_bind_none hrun, Attempt.run_bind_none hrun]
      · rw [Attempt.run_bind_error hrun, Attempt.run_bind_error hrun]
      · rw [Attempt.run_bind_ok hrun, Attempt.run_bind_ok hrun]
        rcases found? with _ | ⟨ordinal, route, settled⟩
        · simp [withBehaviors]
        · have hopening : table.opening? answers scope nesting (.dispatch arguments) registry =
              some ⟨route.behavior, ⟨scope, ordinal, settled⟩, after, nesting⟩ := by
            rw [opening?, hrun]
          exact hstarted hopening
  | invoke ordinal arguments =>
      have hroutes : (table.withBehaviors behaviors).routes[ordinal]? =
          table.routes[ordinal]?.map fun route => ⟨route.rules, behaviors ordinal⟩ :=
        List.getElem?_mapIdx
      rw [enter, enter, invokeWith, invokeWith, hroutes]
      cases hroute : table.routes[ordinal]? with
      | none => rfl
      | some route =>
          have hopening : table.opening? answers scope nesting (.invoke ordinal arguments) registry
              = some ⟨route.behavior, ⟨scope, ordinal, arguments⟩, registry, nesting⟩ := by
            rw [opening?, hroute]
            rfl
          exact hstarted hopening

/-- What a request of the first behavior starts, the whole call has started. -/
theorem Started.of_opening {made : Request × Registry σ} {below : Entry}
    (hopening : table.opening? answers scope (nesting + 1) entry registry = some parent)
    (hmade : made ∈ parent.requests answers table scope)
    (hentry : target? parent.call.ordinal made.1 = some below)
    (h : Started answers table scope nesting below made.2 started) :
    Started answers table scope (nesting + 1) entry registry started := by
  induction h with
  | opened hbelow =>
      refine .requested (.opened hopening) hmade ?_
      rw [child?, nesting_of_opening hopening, hentry]
      exact hbelow
  | requested _ hmade h ih => exact .requested ih hmade h

/-- A call runs alike with other behaviors if all behaviors that it starts do the same there. -/
theorem enter_withBehaviors {behaviors : Nat → Behavior σ S}
    (h : ∀ started, Started answers table scope nesting entry registry started →
      behaviors started.call.ordinal started.call = started.behavior started.call) :
    ((table.withBehaviors behaviors).enter answers scope nesting entry).run registry =
      (table.enter answers scope nesting entry).run registry := by
  induction nesting generalizing entry registry with
  | zero =>
      exact enter_withBehaviors_of_opening fun started hopening =>
        ⟨h started (.opened hopening), fun _ _ => rfl⟩
  | succ nesting ih =>
      -- the requests of the behavior that is started first are calls with one level less
      refine enter_withBehaviors_of_opening fun started hopening =>
        ⟨h started (.opened hopening), fun made hmade => ?_⟩
      cases hentry : target? started.call.ordinal made.1 with
      | none => rw [handoverUpTo_of_none hentry, handoverUpTo_of_none hentry]
      | some below =>
          rw [handoverUpTo_of_entry hentry, handoverUpTo_of_entry hentry]
          exact ih fun other hother => h other (.of_opening hopening hmade hentry hother)

/-! Other rules -/

variable (table) in
/-- The table with other rules before its behaviors. -/
def withRules (rules : Nat → List Rule) : Dispatcher σ S :=
  ⟨table.routes.mapIdx fun ordinal route => ⟨rules ordinal, route.behavior⟩⟩

/-- A behavior that is started by its ordinal is started whatever the rules are. -/
theorem invokeWith_withRules (rules : Nat → List Rule) (handover : Handover σ)
    (arguments : List Value) :
    (table.withRules rules).invokeWith answers handover ordinal scope arguments =
      table.invokeWith answers handover ordinal scope arguments := by
  have hroutes : (table.withRules rules).routes[ordinal]? =
      table.routes[ordinal]?.map fun route => ⟨rules ordinal, route.behavior⟩ :=
    List.getElem?_mapIdx
  rw [invokeWith, invokeWith, hroutes]
  cases table.routes[ordinal]? <;> rfl

/-! All behaviors of a tree -/

/-- Every behavior that a call starts is in its place: one that a request starts is started by a
call with one level less. -/
theorem Started.inPlace (h : Started answers table scope nesting entry registry started) :
    InPlace table scope started := by
  cases h with
  | opened hopening => exact inPlace_of_opening hopening
  | requested _ _ hchild =>
      obtain ⟨_, _, _, _, hopening⟩ := opening_of_child hchild
      exact inPlace_of_opening hopening

/-- A request for the previous behavior starts that of the ordinal before. -/
theorem ordinal_of_previous {arguments : List Value}
    (h : table.child? answers scope parent (.previous arguments, registry) = some started) :
    parent.call.ordinal = started.call.ordinal + 1 := by
  obtain ⟨nesting, entry, _, hentry, hopening⟩ := opening_of_child h
  cases hordinal : parent.call.ordinal with
  | zero =>
      rw [hordinal] at hentry
      cases hentry
  | succ before =>
      rw [hordinal] at hentry
      cases hentry
      rw [opening?, Option.map_eq_some_iff] at hopening
      obtain ⟨route, _, rfl⟩ := hopening
      rfl

/-- A chain of calls of the previous behavior goes down by one with each call. -/
theorem PreviousChain.ordinals {chain : List (Activation σ S)}
    (h : PreviousChain answers table scope parent chain) :
    chain.map (fun started => started.call.ordinal) <+:
      (List.range parent.call.ordinal).reverse := by
  induction h with
  | nil last => exact List.nil_prefix
  | cons _ hchild _ ih =>
      rw [ordinal_of_previous hchild, List.range_succ, List.reverse_append, List.map_cons]
      exact List.cons_prefix_cons.mpr ⟨rfl, ih⟩

theorem PreviousChain.forall_started {chain : List (Activation σ S)}
    (h : PreviousChain answers table scope parent chain)
    (hparent : Started answers table scope nesting entry registry parent) :
    ∀ started ∈ chain, Started answers table scope nesting entry registry started := by
  induction h with
  | nil last => exact nofun
  | cons hmade hchild _ ih =>
      have hstarted := hparent.requested hmade hchild
      exact List.forall_mem_cons.mpr ⟨hstarted, ih hstarted⟩

/-- A request that comes in at an ordinal starts the behavior there on its arguments, in the
registry that it is made in. -/
theorem child_of_invoke {arguments : List Value} {route : Route σ S}
    (hnesting : parent.nesting = nesting + 1)
    (hentry : target? parent.call.ordinal request = some (.invoke ordinal arguments))
    (hroute : table.routes[ordinal]? = some route) :
    table.child? answers scope parent (request, registry) =
      some ⟨route.behavior, ⟨scope, ordinal, arguments⟩, registry, nesting⟩ := by
  rw [child?, hnesting, hentry]
  change table.routes[ordinal]?.map _ = _
  rw [hroute]
  rfl

variable (answers table scope)

/-- How a started behavior hands its arguments over, as long as its requests may nest. The
behavior that a request starts gives the answer to the request. -/
structure HandsOver (parent : Activation σ S) : Prop where
  first : ∀ nesting arguments registry, parent.nesting = nesting + 1 →
    ∃ route, table.routes[0]? = some route ∧
      table.child? answers scope parent (.first arguments, registry) =
        some ⟨route.behavior, ⟨scope, 0, arguments⟩, registry, nesting⟩
  previous : ∀ nesting ordinal arguments registry, parent.nesting = nesting + 1 →
    parent.call.ordinal = ordinal + 1 → ∃ route, table.routes[ordinal]? = some route ∧
      table.child? answers scope parent (.previous arguments, registry) =
        some ⟨route.behavior, ⟨scope, ordinal, arguments⟩, registry, nesting⟩
  untested : ∀ rules handover request, (∀ arguments, request ≠ .dispatch arguments) →
    (table.withRules rules).meet answers handover scope parent.call.ordinal request =
      table.meet answers handover scope parent.call.ordinal request
  answered : ∀ made started, table.child? answers scope parent made = some started →
    table.handoverUpTo answers scope parent.nesting parent.call.ordinal made.1 made.2 =
      started.run answers table scope
  noPrevious : parent.call.ordinal = 0 → ∀ arguments registry,
    table.child? answers scope parent (.previous arguments, registry) = none ∧
      ∀ nesting, parent.nesting = nesting + 1 →
        table.handoverUpTo answers scope parent.nesting 0 (.previous arguments) registry =
          (consult answers (.noPreviousRoute 0) registry).map fun shown =>
            (.error (.noPreviousRoute 0), shown.2)

variable {answers table scope}

theorem InPlace.handsOver (h : InPlace table scope parent) :
    HandsOver answers table scope parent where
  first nesting arguments registry hnesting := by
    have hbound : 0 < table.routes.length := Nat.zero_lt_of_lt h.bound
    have hroute := List.getElem?_eq_getElem hbound
    exact ⟨_, hroute, child_of_invoke hnesting (by cases parent.call.ordinal <;> rfl) hroute⟩
  previous nesting ordinal arguments registry hnesting hordinal := by
    have hbound : ordinal < table.routes.length := by
      have hparent := h.bound
      omega
    have hroute := List.getElem?_eq_getElem hbound
    exact ⟨_, hroute, child_of_invoke hnesting (by rw [hordinal]; rfl) hroute⟩
  untested rules handover request hrequest := by
    cases request with
    | first arguments => exact invokeWith_withRules rules handover arguments
    | previous arguments =>
        cases parent.call.ordinal with
        | zero => rfl
        | succ before => exact invokeWith_withRules rules handover arguments
    | dispatch arguments => exact absurd rfl (hrequest arguments)
  answered made started hchild := by
    obtain ⟨nesting, entry, hnesting, hentry, hopening⟩ := opening_of_child hchild
    rw [hnesting, handoverUpTo_of_entry hentry, enter_run_of_opening hopening]
  noPrevious hordinal arguments registry := by
    have hentry : target? parent.call.ordinal (.previous arguments) = none := by
      rw [hordinal]
      rfl
    refine ⟨?_, fun nesting hnesting => ?_⟩
    · rw [child?]
      split
      · rfl
      · rw [hentry]
        rfl
    · rw [hordinal] at hentry
      rw [hnesting, handoverUpTo_of_none hentry]

/-- A call of a table from outside, with a bound on how deep programs nest. -/
def Entry.call (nesting : Nat) (table : Dispatcher σ S) (scope : S) : Entry → Attempt σ Value
  | .dispatch arguments => table.dispatch nesting scope arguments
  | .invoke ordinal arguments => table.invoke nesting ordinal scope arguments

theorem Entry.call_eq_enter (nesting : Nat) (table : Dispatcher σ S) (scope : S) (entry : Entry) :
    entry.call nesting table scope = table.enter (.upTo nesting) scope nesting entry := by
  cases entry <;> rfl

/-- The tree of a call, dispatched or to the behavior at an ordinal, whatever the behaviors
request. If the call starts a behavior, it comes to what that behavior comes to. The tree is all
that counts: other behaviors make no difference if they do the same on the handles of the tree.
Every behavior of the tree is that of the route at the ordinal of its handle, under the scope of
the call. Its requests for the first behavior and for the one before it hand their arguments
over as they are, without any test; there is none before the behavior at ordinal 0, and the
hook is shown that. A chain of requests for the previous behavior goes down one by one. -/
theorem call_tree (nesting : Nat) (table : Dispatcher σ S) (scope : S) (entry : Entry)
    (registry : Registry σ) :
    let answers : Answers σ := .upTo nesting
    let InTree : Activation σ S → Prop := Started answers table scope nesting entry registry
    (∀ started, table.opening? answers scope nesting entry registry = some started →
      (entry.call nesting table scope).run registry = started.run answers table scope) ∧
    (∀ behaviors : Nat → Behavior σ S,
      (∀ started, InTree started →
        behaviors started.call.ordinal started.call = started.behavior started.call) →
      (entry.call nesting (table.withBehaviors behaviors) scope).run registry =
        (entry.call nesting table scope).run registry) ∧
    ∀ parent, InTree parent → InPlace table scope parent ∧ HandsOver answers table scope parent ∧
      ∀ chain, PreviousChain answers table scope parent chain →
        (∀ started ∈ chain, InTree started) ∧
          chain.map (fun started => started.call.ordinal) <+:
            (List.range parent.call.ordinal).reverse := by
  intro answers InTree
  refine ⟨fun started hopening => ?_, fun behaviors hbehaviors => ?_, fun parent hparent => ?_⟩
  · rw [Entry.call_eq_enter, enter_run_of_opening hopening]
  · rw [Entry.call_eq_enter, Entry.call_eq_enter]
    exact enter_withBehaviors hbehaviors
  · exact ⟨hparent.inPlace, hparent.inPlace.handsOver,
      fun chain hchain => ⟨hchain.forall_started hparent, hchain.ordinals⟩⟩

/-- Three behaviors that all request the one before them: from the last one down, and then the
fault. -/
theorem call_tree_backwards :
    let backwards : Route Unit Nat := ⟨[], fun call => .call (.previous call.arguments) .done⟩
    let table : Dispatcher Unit Nat := ⟨[backwards, backwards, backwards]⟩
    let registry : Registry Unit := .new .standard ()
    let answers : Answers Unit := .upTo 5
    ∃ parent chain, Started answers table 7 5 (.invoke 2 [.null]) registry parent ∧
      PreviousChain answers table 7 parent chain ∧
      chain.map (fun started => started.call.ordinal) = [1, 0] ∧
      (∀ started ∈ chain, InPlace table 7 started) ∧
      ∃ after, (table.invoke 5 2 7 [.null]).run registry =
        some (.error (.noPreviousRoute 0), after) ∧ after.consulted = [.noPreviousRoute 0] := by
  intro backwards table registry answers
  let started (ordinal nesting : Nat) : Activation Unit Nat :=
    ⟨backwards.behavior, ⟨7, ordinal, [.null]⟩, registry, nesting⟩
  have hroot : table.opening? answers 7 5 (.invoke 2 [.null]) registry = some (started 2 5) := rfl
  have hmade (ordinal nesting : Nat) : (.previous [.null], registry) ∈
      (started ordinal nesting).requests answers table 7 := by
    change _ ∈ Program.requests _ _ (.call (Request.previous [.null]) .done) registry
    rw [Program.requests]
    exact List.mem_cons_self
  have hchain : PreviousChain answers table 7 (started 2 5) [started 1 4, started 0 3] :=
    .cons (hmade 2 5) rfl (.cons (hmade 1 4) rfl (.nil _))
  obtain ⟨_, _, htree⟩ := call_tree 5 table 7 (.invoke 2 [.null]) registry
  obtain ⟨_, _, hdown⟩ := htree (started 2 5) (.opened hroot)
  exact ⟨started 2 5, _, .opened hroot, hchain, rfl,
    fun other hother => (htree other ((hdown _ hchain).1 other hother)).1, _, rfl, rfl⟩

end Dispatcher

end Switchboard
