import Switchboard.Proofs.Console.Options
import Switchboard.Proofs.Dispatch.InTurn
import Switchboard.Proofs.Registry.Repeated
import Switchboard.Proofs.Value.Lines

/-!
The check of values. The expression is evaluated on the values in turn, and nothing is written
before the last evaluation has come to its end: a check that fails leaves the output empty. One
that does not fail writes the expression and then each value with its verdict. These are as many
lines as there are values and one more, unless a key of an object holds a line break, which is
written as it is.
-/

namespace Switchboard

namespace Attempt

variable {σ α : Type} {base registry after : Registry σ} {attempts : List (Attempt σ α)}
  {results : List α}

/-- Attempts that come to an end all succeed in turn, or one of them fails. -/
theorem inTurn_or_reaches (h : ∀ attempt ∈ attempts, attempt.Repeats base)
    (hframed : base.Framed registry) :
    (∃ results after, InTurn attempts registry results after) ∨
      ∃ results fault after, Reaches attempts registry results (.error fault) after := by
  induction attempts generalizing registry with
  | nil => exact Or.inl ⟨[], registry, .nil registry⟩
  | cons attempt attempts ih =>
      rw [List.forall_mem_cons] at h
      obtain ⟨outcome, cache, faults, hrun, _⟩ := h.1 registry hframed
      cases outcome with
      | error fault => exact Or.inr ⟨[], fault, _, .here hrun⟩
      | ok result =>
          rcases ih h.2 (Registry.framed_filled hframed cache faults) with
            ⟨results, after, hrest⟩ | ⟨results, fault, after, hrest⟩
          · exact Or.inl ⟨result :: results, after, .cons hrun hrest⟩
          · exact Or.inr ⟨result :: results, fault, after, .later hrun hrest⟩

/-- What attempts have come to in turn, each of them comes to again after them. -/
theorem InTurn.again (h : InTurn attempts registry results after)
    (hrepeats : ∀ attempt ∈ attempts, attempt.Repeats base) (hframed : base.Framed registry) :
    base.Framed after ∧ registry.cache.Within after.cache ∧
      ∀ later, base.Framed later → after.cache.Within later.cache →
        List.Forall₂ (fun attempt result => ∃ last, attempt.run later = some (.ok result, last))
          attempts results := by
  induction h with
  | nil registry => exact ⟨hframed, .refl _, fun _ _ _ => .nil⟩
  | cons hrun hrest ih =>
      rw [List.forall_mem_cons] at hrepeats
      obtain ⟨outcome, cache, faults, hended, hwithin, hagain⟩ := hrepeats.1 _ hframed
      rw [hrun] at hended
      cases hended
      obtain ⟨hlast, hgrown, hothers⟩ :=
        ih hrepeats.2 (Registry.framed_filled hframed cache faults)
      -- the entries that the first attempt needs are among those that the others leave
      refine ⟨hlast, hwithin.trans hgrown, fun later hlater hentries => ?_⟩
      exact .cons ⟨_, hagain later hlater (hgrown.trans hentries)⟩ (hothers later hlater hentries)

end Attempt

namespace Registry

variable {σ : Type} {registry after : Registry σ}

theorem PureHook.framed (h : PureHook registry) (hframed : registry.Framed after) :
    PureHook after := by
  rwa [PureHook, hframed.hook]

/-- Binding an alias brings in no test and leaves the hook. -/
theorem pure_of_bindAlias (htests : PureTests registry) (hhook : PureHook registry)
    {answers : Answers σ} {overriding : Bool} {name source : String} {outcome : Except Fault Unit}
    (h : (bind answers overriding name (.alias source)).run registry = some (outcome, after)) :
    PureTests after ∧ PureHook after := by
  rcases hcheck : registry.bindFault? overriding name (.alias source) with ⟨_ | fault, checked⟩
  · have hframed := (framed_bindFault? hcheck).1
    rw [bind_run_of_valid answers hcheck] at h
    cases h
    refine ⟨(htests.framed hframed).makeBinding name nofun, ?_⟩
    have hbound : (checked.makeBinding name (.alias source)).hook = checked.hook := by
      rw [makeBinding]
      split <;> rfl
    intro fault
    rw [hbound]
    exact hhook.framed hframed fault
  · have hframed := (framed_bindFault? hcheck).1
    have haloof (fault : Fault) : (checked.hook fault).Aloof := by
      obtain ⟨verdict, hverdict⟩ := hhook.framed hframed fault
      rw [hverdict]
      trivial
    obtain ⟨ended, last, hrun⟩ :=
      (unattended_of_pureTests (htests.framed hframed) haloof).recover_run answers fault
    rw [bind_run_of_fault answers hcheck, hrun checked rfl rfl] at h
    cases h
    have hshown := hframed.trans (framed_shown checked fault last)
    exact ⟨htests.framed hshown, hhook.framed hshown⟩

end Registry

namespace Console

open Text
open Registry (PureTests PureHook)

variable {expression : String} {values : List Value} {registry after : Registry Unit}

/-- The registry that definitions leave has tests and a hook that look at nothing but what they
are given. -/
theorem pure_of_defineAll {defines : List (String × String)} {outcome : Except Fault Unit}
    (htests : PureTests registry) (hhook : PureHook registry)
    (h : (defineAll defines).run registry = some (outcome, after)) :
    PureTests after ∧ PureHook after := by
  induction defines generalizing registry with
  | nil =>
      obtain ⟨_, rfl⟩ := Attempt.run_pure_eq_some_iff.mp h
      exact ⟨htests, hhook⟩
  | cons define defines ih =>
      rw [defineAll] at h
      rcases Attempt.run_bind_eq_some_iff.mp h with ⟨_, hfirst, _⟩ | ⟨_, middle, hfirst, hrest⟩
      · exact Registry.pure_of_bindAlias htests hhook hfirst
      · obtain ⟨hmiddle, hmiddleHook⟩ := Registry.pure_of_bindAlias htests hhook hfirst
        exact ih hmiddle hmiddleHook hrest

/-- The evaluations of an expression on values. -/
def evaluations (expression : String) (values : List Value) : List (Attempt Unit Bool) :=
  values.map (Registry.evaluate answers expression)

/-- If all evaluations succeed in turn, their answers are the outcomes of the values. -/
theorem evaluateAll_of_inTurn {oks : List Bool}
    (h : Attempt.InTurn (evaluations expression values) registry oks after) :
    (evaluateAll expression values).run registry = some (.ok (values.zip oks), after) := by
  induction values generalizing registry oks with
  | nil =>
      obtain ⟨rfl, rfl⟩ := Attempt.inTurn_nil_iff.mp h
      rfl
  | cons v values ih =>
      obtain ⟨ok, rest, middle, rfl, hrun, hrest⟩ := Attempt.inTurn_cons_iff.mp h
      rw [evaluateAll, Attempt.run_bind_ok hrun, Attempt.run_bind_ok (ih hrest)]
      rfl

/-- If an evaluation fails, so does the whole. -/
theorem evaluateAll_of_reaches {oks : List Bool} {fault : Fault}
    (h : Attempt.Reaches (evaluations expression values) registry oks (.error fault) after) :
    (evaluateAll expression values).run registry = some (.error fault, after) := by
  induction values generalizing registry oks with
  | nil => exact absurd h Attempt.not_reaches_nil
  | cons v values ih =>
      rw [evaluateAll]
      rcases Attempt.reaches_cons_iff.mp h with
        ⟨_, hrun⟩ | ⟨ok, rest, middle, _, hrun, hrest⟩
      · exact Attempt.run_bind_error hrun
      · rw [Attempt.run_bind_ok hrun, Attempt.run_bind_error (ih hrest)]

/-- The line of a checked value, without colours. -/
def plainLine (v : Value) (ok : Bool) : String :=
  (if ok then "true" else "false") ++ "  " ++ v.display ++ " " ++ ("(" ++ v.typeName ++ ")")

/-- The lines of a check, without colours. -/
def plainReport (expression : String) (outcomes : List (Value × Bool)) : List String :=
  ("# " ++ expression) :: outcomes.map fun outcome => plainLine outcome.1 outcome.2

theorem checkReport_plain (expression : String) (outcomes : List (Value × Bool)) :
    checkReport ⟨false⟩ expression outcomes = plainReport expression outcomes := by
  have hline (outcome : Value × Bool) :
      checkLine ⟨false⟩ outcome.1 outcome.2 = plainLine outcome.1 outcome.2 := by
    obtain ⟨v, ok⟩ := outcome
    cases ok <;> rfl
  rw [checkReport, plainReport]
  exact congrArg₂ List.cons rfl (List.map_congr_left fun outcome _ => hline outcome)

theorem lineBreaks_unlines (lines : List String) :
    lineBreaks (unlines lines) = lines.length + (lines.map lineBreaks).sum := by
  rw [unlines, lineBreaks_join, List.map_map]
  induction lines with
  | nil => rfl
  | cons line lines ih =>
      have hended : lineBreaks (line ++ "\n") = lineBreaks line + 1 := lineBreaks_append line "\n"
      rw [List.map_cons, List.sum_cons, ih, Function.comp_apply, hended, List.length_cons,
        List.map_cons, List.sum_cons]
      omega

/-- The line of a JSON value holds the line breaks of its keys. -/
theorem lineBreaks_plainLine {v : Value} (h : v.IsJson) (ok : Bool) :
    lineBreaks (plainLine v ok) = v.keyBreaks := by
  have hname : lineBreaks v.typeName = 0 := by
    rw [Value.typeName]
    cases v.kind <;> rfl
  have hverdict : lineBreaks (if ok then "true" else "false") = 0 := by cases ok <;> rfl
  have hconstants : lineBreaks "  " = 0 ∧ lineBreaks " " = 0 ∧ lineBreaks "(" = 0 ∧
      lineBreaks ")" = 0 := ⟨rfl, rfl, rfl, rfl⟩
  simp [plainLine, hname, hverdict, hconstants, v.lineBreaks_display h]

/-- The report of a check has one line for the expression and one for each value, and the line
breaks of keys come on top. -/
theorem lineBreaks_plainReport {oks : List Bool} (hexpression : '\n' ∉ expression.toList)
    (hvalues : ∀ v ∈ values, v.IsJson) (hlength : oks.length = values.length) :
    lineBreaks (unlines (plainReport expression (values.zip oks))) =
      values.length + 1 + (values.map Value.keyBreaks).sum := by
  have hheader : lineBreaks ("# " ++ expression) = 0 := by
    rw [lineBreaks_append, lineBreaks_eq_zero_iff.mpr hexpression]
    rfl
  have hlines : (values.zip oks).map (lineBreaks ∘ fun outcome => plainLine outcome.1 outcome.2) =
      values.map Value.keyBreaks := by
    calc (values.zip oks).map (lineBreaks ∘ fun outcome => plainLine outcome.1 outcome.2)
        = (values.zip oks).map (Value.keyBreaks ∘ Prod.fst) :=
          List.map_congr_left fun outcome houtcome =>
            lineBreaks_plainLine (hvalues outcome.1 (List.of_mem_zip houtcome).1) outcome.2
      _ = values.map Value.keyBreaks := by rw [← List.map_map, List.map_fst_zip hlength.ge]
  rw [lineBreaks_unlines, plainReport, List.map_cons, List.sum_cons, hheader, List.map_map, hlines]
  simp [hlength]

theorem isJson_of_readJson {source : String} {v : Value} (h : readJson source = .ok v) :
    v.IsJson := by
  rw [readJson] at h
  split at h
  · next hsource =>
      cases h
      exact Json.isJson_of_read? hsource
  · cases h

theorem isJson_of_readValues {sources : List String} (h : readValues sources = .ok values) :
    ∀ v ∈ values, v.IsJson := by
  induction sources generalizing values with
  | nil =>
      cases h
      exact List.forall_mem_nil _
  | cons source sources ih =>
      rw [readValues, List.mapM_cons] at h
      rcases hsource : readJson source with error | v <;> rw [hsource] at h
      · cases h
      · rcases hsources : sources.mapM readJson with error | others <;> rw [hsources] at h
        · cases h
        · cases h
          exact List.forall_mem_cons.mpr ⟨isJson_of_readJson hsource, ih hsources⟩

/-- The values of a check are read from JSON texts. -/
theorem isJson_of_load {order : Order} {input : String}
    (h : order.load input = .ok (.check expression values)) : ∀ v ∈ values, v.IsJson := by
  rw [Order.load.eq_def] at h
  split at h
  · split at h
    · split at h
      · next hstream =>
          cases h
          exact Json.isJson_of_readStreamFrom? hstream
      · cases h
    · next sources _ =>
        rcases hsources : readValues sources with error | read <;> rw [hsources] at h
        · cases h
        · cases h
          exact isJson_of_readValues hsources
  · cases h
  · next rules arguments =>
      simp only [bind, Except.bind] at h
      split at h
      · cases h
      · split at h
        · cases h
        · split at h
          · cases h
          · cases h

/-- A command line that comes to a check has JSON values. -/
theorem isJson_of_configure {arguments : List String} {input : String} {terminal : Bool}
    {settings : Settings} (h : configure arguments input terminal = .ok settings)
    (hcheck : settings.command = .check expression values) : ∀ v ∈ values, v.IsJson := by
  rw [configure] at h
  rcases hread : readArguments arguments terminal with stop | ⟨scan, order⟩ <;> rw [hread] at h
  · cases h
  · simp only [bind, Except.bind] at h
    rcases hload : order.load input with error | command <;> rw [hload] at h
    · cases h
    · cases h
      cases hcheck
      exact isJson_of_load hload

/-- The reply to a command that has come to an end. -/
def finalReply : Except Fault Reply → Reply
  | .ok reply => reply
  | .error fault => faultReply fault

/-- A command is followed in the registry that the definitions leave. -/
theorem execute_of_defineAll {scan : Scan} {command : Command} {outcome : Except Fault Reply}
    (hdefines : (defineAll scan.defines).run freshRegistry = some (.ok (), registry))
    (hrun : (command.perform ⟨scan.color⟩).run registry = some (outcome, after)) :
    execute scan command = finalReply outcome := by
  have hboth : (defineAll scan.defines >>= fun _ => command.perform ⟨scan.color⟩).run.run
      freshRegistry = some (outcome, after) := (Attempt.run_bind_ok hdefines).trans hrun
  rw [execute, hboth]
  cases outcome <;> rfl

/-- If all evaluations succeed in turn, a check without colours writes the plain report. -/
theorem perform_check_of_inTurn {oks : List Bool}
    (h : Attempt.InTurn (evaluations expression values) registry oks after) :
    (Command.perform ⟨false⟩ (.check expression values)).run registry =
      some (.ok ⟨0, unlines (plainReport expression (values.zip oks)), ""⟩, after) := by
  rw [Command.perform, Attempt.run_bind_ok (evaluateAll_of_inTurn h), checkReport_plain]
  rfl

/-- If an evaluation fails, the check comes to its fault, whatever others have answered. -/
theorem perform_check_of_reaches {palette : Palette} {oks : List Bool} {fault : Fault}
    (h : Attempt.Reaches (evaluations expression values) registry oks (.error fault) after) :
    (Command.perform palette (.check expression values)).run registry =
      some (.error fault, after) := by
  rw [Command.perform, Attempt.run_bind_error (evaluateAll_of_reaches h)]

/-- In the registry that definitions leave, an evaluation asked again answers the same. -/
theorem evaluations_repeat {defines : List (String × String)}
    (hdefines : (defineAll defines).run freshRegistry = some (.ok (), registry)) :
    ∀ attempt ∈ evaluations expression values, attempt.Repeats registry := by
  obtain ⟨htests, hhook⟩ :=
    pure_of_defineAll (Registry.pureTests_new .standard ()) (fun _ => ⟨.raise, rfl⟩) hdefines
  intro attempt hattempt
  obtain ⟨v, _, rfl⟩ := List.mem_map.mp hattempt
  exact (Registry.repeats_compositional htests hhook answers).evaluate expression v

/-- A check without colours, after definitions that are accepted. If the evaluation of a value
fails, after those before it have succeeded in turn, nothing is written and the program exits
with 1. If none does, it exits with 0 and has written the expression and then a line for each
value in order, which begins with the answer of its evaluation; asked again at the end, the
registry gives the same answer for each value. The lines are one more than the values, and one
more for each line break in a key of an object at any depth: exactly one more than the values if
and only if no key holds one. -/
theorem check_lines {arguments : List String} {input : String} {terminal : Bool}
    {settings : Settings} (hsettings : configure arguments input terminal = .ok settings)
    (hcheck : settings.command = .check expression values) (hcolor : settings.color = false)
    (hdefines : (defineAll settings.defines).run freshRegistry = some (.ok (), registry))
    (hexpression : '\n' ∉ expression.toList) :
    let answer := reply arguments input terminal
    (∃ oks fault after,
      Attempt.Reaches (evaluations expression values) registry oks (.error fault) after ∧
      answer.exit = 1 ∧ answer.out = "") ∨
    ∃ oks after, Attempt.InTurn (evaluations expression values) registry oks after ∧
      List.Forall₂ (fun v ok => ∃ last,
        (Registry.evaluate answers expression v).run after = some (.ok ok, last)) values oks ∧
      answer.exit = 0 ∧ answer.out = unlines (plainReport expression (values.zip oks)) ∧
      lineBreaks answer.out = values.length + 1 + (values.map Value.keyBreaks).sum ∧
      (lineBreaks answer.out = values.length + 1 ↔ ∀ v ∈ values, ∀ fields,
        Value.Occurs (.object fields) v → ∀ key ∈ Table.keys fields, '\n' ∉ key.toList) := by
  intro answer
  obtain ⟨command, defines, color, verbose⟩ := settings
  cases hcheck
  cases hcolor
  simp only at hdefines
  have hvalues := isJson_of_configure hsettings rfl
  have hanswer : answer = execute ⟨[], defines, false, verbose⟩ (.check expression values) :=
    (reply_eq arguments input terminal).trans (by rw [hsettings])
  have hrepeats : ∀ attempt ∈ evaluations expression values, attempt.Repeats registry :=
    evaluations_repeat hdefines
  rcases Attempt.inTurn_or_reaches hrepeats (.refl registry) with
    ⟨oks, after, hinTurn⟩ | ⟨oks, fault, after, hreaches⟩
  · rw [execute_of_defineAll hdefines (perform_check_of_inTurn hinTurn)] at hanswer
    have hlength : oks.length = values.length := by
      rw [hinTurn.length_eq, evaluations, List.length_map]
    have hbreaks := lineBreaks_plainReport hexpression hvalues hlength
    obtain ⟨hframed, _, hagain⟩ := hinTurn.again hrepeats (.refl registry)
    have hsame := List.forall₂_map_left_iff.mp (hagain after hframed (.refl after.cache))
    have hnone : (values.map Value.keyBreaks).sum = 0 ↔ ∀ v ∈ values, v.keyBreaks = 0 := by
      rw [List.sum_eq_zero_iff, List.forall_mem_map]
    refine Or.inr ⟨oks, after, hinTurn, hsame, ?_, ?_, ?_, ?_⟩
    · rw [hanswer]
      rfl
    · rw [hanswer]
      rfl
    · rw [hanswer]
      exact hbreaks
    · rw [hanswer]
      refine (iff_of_eq (congrArg (· = values.length + 1) hbreaks)).trans ?_
      rw [Nat.add_eq_left, hnone]
      exact forall₂_congr fun v _ => v.keyBreaks_eq_zero_iff
  · rw [execute_of_defineAll hdefines (perform_check_of_reaches hreaches)] at hanswer
    exact Or.inl ⟨oks, fault, after, hreaches, by rw [hanswer]; rfl, by rw [hanswer]; rfl⟩

/-- Two values are checked against a defined name: three lines. -/
theorem check_lines_label :
    let arguments := ["-d", "label=string", "check", "label", "\"a\"", "\x7b\"k\":[null]\x7d"]
    let values := [Value.string "a", .object [("k", .array [.null])]]
    configure arguments "" false =
        .ok ⟨.check "label" values, [("label", "string")], false, false⟩ ∧
      (∃ registry, (defineAll [("label", "string")]).run freshRegistry =
        some (.ok (), registry)) ∧
      '\n' ∉ "label".toList ∧ lineBreaks (reply arguments "" false).out = 3 := by
  intro arguments values
  have hpieces : ∀ piece ∈ [Piece.define .short "label=string", .word "check", .word "label",
      .word "\"a\"", .word "\x7b\"k\":[null]\x7d"], piece.Valid ∧ piece.Plain := by decide +kernel
  have hsettings : configure arguments "" false =
      .ok ⟨.check "label" values, [("label", "string")], false, false⟩ :=
    configure_commandLine hpieces "" false
  have hexpression : '\n' ∉ "label".toList := by decide
  have hexit : (reply arguments "" false).exit = 0 := by decide +kernel
  obtain ⟨registry, hdefines⟩ : ∃ registry,
      (defineAll [("label", "string")]).run freshRegistry = some (.ok (), registry) := ⟨_, rfl⟩
  rcases check_lines hsettings rfl rfl hdefines hexpression with
    ⟨_, _, _, _, hfailed, _⟩ | ⟨_, _, _, _, _, _, hbreaks, _⟩
  · rw [hexit] at hfailed
    cases hfailed
  · exact ⟨hsettings, ⟨registry, hdefines⟩, hexpression, hbreaks⟩

/-- A key with a line break makes a value take two lines. -/
theorem reply_check_brokenKey :
    let arguments := ["check", "any", "\x7b\"a\\nb\":null\x7d"]
    configure arguments "" false =
        .ok ⟨.check "any" [.object [("a\nb", .null)]], [], false, false⟩ ∧
      (defineAll []).run freshRegistry = some (.ok (), freshRegistry) ∧
      reply arguments "" false = ⟨0, "# any\ntrue  \x7ba\nb: null\x7d (object)\n", ""⟩ ∧
      lineBreaks (reply arguments "" false).out ≠ [Value.object [("a\nb", .null)]].length + 1 := by
  intro arguments
  have hpieces : ∀ piece ∈ [Piece.word "check", .word "any", .word "\x7b\"a\\nb\":null\x7d"],
      piece.Valid ∧ piece.Plain := by decide +kernel
  have hreply : reply arguments "" false =
      ⟨0, "# any\ntrue  \x7ba\nb: null\x7d (object)\n", ""⟩ := by decide +kernel
  refine ⟨configure_commandLine hpieces "" false, rfl, hreply, ?_⟩
  rw [hreply]
  decide

end Console

end Switchboard
