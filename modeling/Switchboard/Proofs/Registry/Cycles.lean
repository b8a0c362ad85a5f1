import Switchboard.Proofs.Registry.Growth
import Switchboard.Proofs.Registry.Shown

/-!
Cycles of aliases without rebinding. If no call and no program binds anything twice, every
call changes a registry by growths. An alias is followed to aliases that were bound before
it, so the hops of an evaluation run out only if there are more names than hops, or if a text
reads as a later alias that divides: in a tame registry no cycle has ever been reported.
-/

namespace Switchboard

variable {ι σ α : Type}

open Registry (Growth Growths Tame GrouplessNames)
open Switchboard.Parser (Indivisible)

namespace Registry

/-- One call of the user in which nothing is bound twice, neither by the call nor by the
tests and hooks that it brings in. -/
inductive Addition : Registry σ → Registry σ → Prop
  | define (registry after : Registry σ) (nesting : Nat) (name : String) (binding : Binding σ)
      (outcome : Except Fault Unit) (hbinding : binding.Additive)
      (h : (Registry.define (.upTo nesting) name binding).run registry = some (outcome, after)) :
      Addition registry after
  | compile (registry : Registry σ) (source : String) :
      Addition registry (registry.compile source).2
  | evaluate (registry after : Registry σ) (nesting : Nat) (source : String) (v : Value)
      (outcome : Except Fault Bool)
      (h : (Registry.evaluate (.upTo nesting) source v).run registry = some (outcome, after)) :
      Addition registry after
  | evaluateTree (registry after : Registry σ) (nesting : Nat) (tree : Expr) (v : Value)
      (outcome : Except Fault Bool)
      (h : (Registry.evaluateTree (.upTo nesting) tree v).run registry = some (outcome, after)) :
      Addition registry after
  | setHook (registry : Registry σ) (hook : Hook σ) (hhook : ∀ fault, (hook fault).Additive) :
      Addition registry { registry with hook := hook }

/-- The states that calls without rebinding can lead to from a new registry. -/
def GrownFrom (options : Options) (state : σ) (registry : Registry σ) : Prop :=
  Relation.ReflTransGen Addition (new options state) registry

/-- A property that growths keep. -/
def Lasting (good : Registry σ → Prop) : Prop :=
  ∀ registry after, Growths registry after → good registry → good after

/-- A change by growths, as far as it starts from a registry that has grown from a new one
and is good. -/
def GrowsIf (options : Options) (state : σ) (good : Registry σ → Prop)
    (registry after : Registry σ) : Prop :=
  Growths (new options state) registry → good registry → Growths registry after

theorem GrowsIf.isPreorder {options : Options} {state : σ} {good : Registry σ → Prop}
    (h : Lasting good) : IsPreorder (Registry σ) (GrowsIf options state good) where
  refl _ _ _ := .refl
  trans _ _ _ hfirst hsecond hgrown hgood :=
    have hmiddle := hfirst hgrown hgood
    hmiddle.trans (hsecond (hgrown.trans hmiddle) (h _ _ hmiddle hgood))

/-- A change by growths, as far as it starts from a registry that has grown from a new
one. -/
abbrev Grows (options : Options) (state : σ) : Registry σ → Registry σ → Prop :=
  GrowsIf options state fun _ => True

instance (options : Options) (state : σ) :
    IsPreorder (Registry σ) (Grows options state) :=
  GrowsIf.isPreorder fun _ _ _ _ => trivial

/-- A fault that can be shown: a cycle only where the registry is not tame. -/
def Showable (fault : Fault) (registry : Registry σ) : Prop :=
  ∀ name, fault = .cyclicType name → ¬ registry.Tame

theorem lasting_showable (fault : Fault) : Lasting (Showable fault : Registry σ → Prop) :=
  fun _ _ hgrowths hshowable name heq htame => hshowable name heq (hgrowths.tame htame)

/-- The hops suffice for the names of a tree: an alias stands at a lower place, and a name
that may still be bound leaves all hops. -/
def Suffices (hops : Nat) (names : List String) (registry : Registry σ) : Prop :=
  registry.Tame → ∀ name ∈ names,
    (registry.IsAlias name → registry.position name < hops) ∧
      (registry.contains name = false → registry.options.maxAliasDepth ≤ hops)

theorem lasting_suffices (hops : Nat) (names : List String) :
    Lasting (Suffices hops names : Registry σ → Prop) := by
  intro registry after hgrowths hsuffices htame name hname
  obtain ⟨hplace, hfree⟩ := hsuffices (hgrowths.tame htame) name hname
  by_cases hbound : registry.contains name = true
  · refine ⟨fun halias => ?_, fun hunbound => ?_⟩
    · rw [hgrowths.position_eq hbound]
      apply hplace
      obtain ⟨source, hsource⟩ := halias
      rw [contains, Table.contains, Option.isSome_iff_exists] at hbound
      obtain ⟨binding, hbinding⟩ := hbound
      have hkept := hgrowths.get? hbinding
      rw [hsource] at hkept
      exact ⟨source, by rw [hbinding, hkept]⟩
    · rw [hgrowths.contains hbound] at hunbound
      cases hunbound
  · rw [Bool.not_eq_true] at hbound
    have hhops := hfree hbound
    rw [← hgrowths.options_eq] at hhops
    refine ⟨?_, fun _ => hhops⟩
    rintro ⟨source, hsource⟩
    exact (position_lt_size (contains_of_get? hsource)).trans_le (htame.size.trans hhops)

end Registry

open Registry (Grows GrowsIf Showable Suffices Lasting)

variable {options : Options} {state : σ}

/-- Answers that change the registry by growths only. -/
structure Answers.Growing (options : Options) (state : σ) (answers : Answers σ) : Prop where
  evaluate : ∀ source v, (answers.evaluate source v).Keeps (Grows options state)
  bindAlias : ∀ name source, (answers.bindAlias false name source).Keeps (Grows options state)

theorem Program.run_grows {answers : Answers σ} (hanswers : answers.Growing options state)
    {call : ι → Run σ (Except Fault Value)}
    (hcall : ∀ request, (call request).Keeps (Grows options state)) {program : Program ι σ α}
    (h : program.Additive) : (program.run answers call).Keeps (Grows options state) := by
  induction program with
  | done result => exact Run.keeps_pure result
  | evaluate source value next ih =>
      exact (hanswers.evaluate source value).bind fun answer => ih answer (h answer)
  | bindAlias overriding name source next ih =>
      obtain ⟨rfl, hnext⟩ := h
      exact (hanswers.bindAlias name source).bind fun answer => ih answer (hnext answer)
  | readState next ih =>
      exact Run.keeps_get.bind fun registry => ih registry.state (h registry.state)
  | writeState written next ih =>
      have hwrite (registry : Registry σ) :
          Grows options state registry { registry with state := written } :=
        fun _ _ => .single (.write registry written)
      exact (Run.keeps_modify hwrite).bind fun _ => ih h
  | call request next ih => exact (hcall request).bind fun answer => ih answer (h answer)

theorem Program.runClosed_grows {answers : Answers σ} (hanswers : answers.Growing options state)
    {program : Program Empty σ α} (h : program.Additive) :
    (program.runClosed answers).Keeps (Grows options state) :=
  program.run_grows hanswers (fun request => request.elim) h

theorem consult_grows {answers : Answers σ} (hanswers : answers.Growing options state)
    (fault : Fault) : (consult answers fault).Keeps (GrowsIf options state (Showable fault)) := by
  intro registry verdict after hrun hgrown hshowable
  have hconsult := Growth.consult registry fault hshowable
  have hhook := hgrown.additive.hook fault
  exact .head hconsult
    (Program.runClosed_grows hanswers hhook _ _ _ hrun (hgrown.tail hconsult) trivial)

theorem recover_grows {answers : Answers σ} (hanswers : answers.Growing options state)
    (fault : Fault) : (recover answers fault).Keeps (GrowsIf options state (Showable fault)) := by
  have : IsPreorder (Registry σ) (GrowsIf options state (Showable fault)) :=
    GrowsIf.isPreorder (Registry.lasting_showable fault)
  refine Attempt.keeps_bind (Attempt.keeps_lift (consult_grows hanswers fault)) fun verdict => ?_
  split
  · exact Attempt.keeps_pure _
  · exact Attempt.keeps_throw fault

namespace Registry

theorem orFalse_grows {answers : Answers σ} (hanswers : answers.Growing options state)
    (fault : Fault) : (orFalse answers fault).Keeps (GrowsIf options state (Showable fault)) := by
  have : IsPreorder (Registry σ) (GrowsIf options state (Showable fault)) :=
    GrowsIf.isPreorder (lasting_showable fault)
  exact Attempt.keeps_bind (recover_grows hanswers fault) fun _ => Attempt.keeps_pure false

theorem resolve_grows {answers : Answers σ} (hanswers : answers.Growing options state)
    {good : Registry σ → Prop} {follow : String → String → Value → Attempt σ Bool} {name : String}
    (hfollow : ∀ source v, (follow name source v).Keeps (GrowsIf options state fun registry =>
      good registry ∧ Table.get? name registry.bindings = some (.alias source))) (v : Value) :
    (resolve answers follow name v).Keeps (GrowsIf options state good) := by
  intro registry outcome after hrun hgrown hgood
  rw [resolve, Attempt.run_get_bind] at hrun
  cases hbinding : Table.get? name registry.bindings with
  | none =>
      rw [hbinding] at hrun
      exact orFalse_grows hanswers _ _ _ _ hrun hgrown fun _ heq => by cases heq
  | some binding =>
      rw [hbinding] at hrun
      cases binding with
      | «alias» source => exact hfollow source v _ _ _ hrun hgrown ⟨hgood, hbinding⟩
      | test test =>
          have hcheck : (test.check answers v).Keeps (Grows options state) := by
            cases test with
            | kinds accepted => exact Run.keeps_pure _
            | custom body =>
                exact Program.runClosed_grows hanswers
                  (hgrown.additive.bindings name _ hbinding body rfl v)
          exact Attempt.keeps_lift hcheck _ _ _ hrun hgrown trivial

/-- The names of an alias stand at lower places than the alias, as far as they are aliases
themselves. -/
theorem Suffices.reading {registry : Registry σ} (hgrown : Growths (new options state) registry)
    {hops : Nat} {names : List String} (h : Suffices (hops + 1) names registry)
    {name source : String} (hname : name ∈ names)
    (hsource : Table.get? name registry.bindings = some (.alias source)) :
    Suffices hops (registry.reading source).names (registry.compile source).2 := by
  intro htame other hother
  have hbefore : registry.Tame := Growths.tame (.single (.compile registry source)) htame
  have hrefers : registry.Refers name other := ⟨source, hsource, hother⟩
  refine ⟨fun halias => ?_, fun hunbound => ?_⟩
  · have hplace := (h hbefore name hname).1 ⟨source, hsource⟩
    have hlink := hbefore.ordered name other
      ((hgrown.coherent hbefore.groupless).mayRefer hrefers) halias
    have hlower : registry.position other < registry.position name :=
      hlink.elim (hgrown.ordered hbefore.groupless name other hrefers) id
    change registry.position other < hops
    omega
  · have hbound := (hgrown.coherent hbefore.groupless).closed name other hrefers
    rw [← contains_compile registry source, hunbound] at hbound
    cases hbound

theorem evaluateFrom_grows {answers : Answers σ} (hanswers : answers.Growing options state)
    (hops : Nat) (tree : Expr) (v : Value) :
    (evaluateFrom answers hops tree v).Keeps
      (GrowsIf options state (Suffices hops tree.names)) := by
  induction hops generalizing tree v with
  | zero =>
      have : IsPreorder (Registry σ) (GrowsIf options state (Suffices 0 tree.names)) :=
        GrowsIf.isPreorder (lasting_suffices 0 tree.names)
      refine Expr.evaluateWith_keeps (fun name hname v => ?_) v
      refine resolve_grows hanswers (fun source v => ?_) v
      -- an alias that has no hop left stands at no place of a tame registry
      intro registry outcome after hrun hgrown ⟨hsuffices, hsource⟩
      refine orFalse_grows hanswers _ _ _ _ hrun hgrown fun _ _ htame => ?_
      exact Nat.not_lt_zero _ ((hsuffices htame name hname).1 ⟨source, hsource⟩)
  | succ hops ih =>
      have : IsPreorder (Registry σ) (GrowsIf options state (Suffices (hops + 1) tree.names)) :=
        GrowsIf.isPreorder (lasting_suffices (hops + 1) tree.names)
      refine Expr.evaluateWith_keeps (fun name hname v => ?_) v
      refine resolve_grows hanswers (fun source v => ?_) v
      intro registry outcome after hrun hgrown ⟨hsuffices, hsource⟩
      have hcompile := Growth.compile registry source
      exact .head hcompile (ih (registry.reading source) v _ outcome after hrun
        (hgrown.tail hcompile) (hsuffices.reading hgrown hname hsource))

theorem evaluateTree_grows {answers : Answers σ} (hanswers : answers.Growing options state)
    (tree : Expr) (v : Value) : (evaluateTree answers tree v).Keeps (Grows options state) := by
  intro registry outcome after hrun hgrown _
  refine evaluateFrom_grows hanswers _ tree v registry outcome after hrun hgrown ?_
  intro htame name _
  refine ⟨?_, fun _ => le_refl _⟩
  rintro ⟨source, hsource⟩
  exact (position_lt_size (contains_of_get? hsource)).trans_le htame.size

theorem evaluate_grows {answers : Answers σ} (hanswers : answers.Growing options state)
    (source : String) (v : Value) : (evaluate answers source v).Keeps (Grows options state) := by
  have hcompile : Run.Keeps (Grows options state) (compileStep source : Run σ Parsed) := by
    intro registry parsed after hrun _ _
    obtain ⟨rfl, rfl⟩ := Prod.mk.inj (Option.some.inj hrun)
    exact .single (.compile registry source)
  exact Attempt.keeps_bind (Attempt.keeps_lift hcompile) fun parsed =>
    evaluateTree_grows hanswers parsed.tree v

theorem ne_cyclicType_of_bindFault? {registry checked : Registry σ} {overriding : Bool}
    {name : String} {binding : Binding σ} {fault : Fault}
    (h : registry.bindFault? overriding name binding = (some fault, checked)) (other : String) :
    fault ≠ .cyclicType other := by
  rintro rfl
  unfold bindFault? at h
  split at h
  · cases h
  · split at h
    · cases h
    · rcases binding with test | source
      · cases h
      · simp only [Prod.mk.injEq, Option.map_eq_some_iff, reduceCtorEq, and_false, exists_false,
          false_and] at h

theorem bind_grows {answers : Answers σ} (hanswers : answers.Growing options state) (name : String)
    {binding : Binding σ} (hbinding : binding.Additive) :
    (bind answers false name binding).Keeps (Grows options state) := by
  intro registry outcome after hrun hgrown _
  have hrun : (bind answers false name binding).run registry = some (outcome, after) := hrun
  rcases hfault : registry.bindFault? false name binding with ⟨fault, checked⟩
  cases fault with
  | none =>
      rw [bind_run_of_valid answers hfault] at hrun
      cases hrun
      exact .single (.bind registry checked name binding hbinding hfault)
  | some fault =>
      rw [bind_run_of_fault answers hfault] at hrun
      have hchecked : Growths registry checked := by
        have hsnd := bindFault?_snd registry false name binding
        rw [hfault] at hsnd
        rcases hsnd with heq | ⟨source, heq⟩
        · rw [show checked = registry from heq]
        · rw [show checked = (registry.compile source).2 from heq]
          exact .single (.compile registry source)
      refine hchecked.trans (recover_grows hanswers fault _ _ _ hrun (hgrown.trans hchecked) ?_)
      exact fun other heq => absurd heq (ne_cyclicType_of_bindFault? hfault other)

/-- Whatever a registry answers to the programs of its user, it changes by growths. -/
theorem upTo_growing (nesting : Nat) : (Answers.upTo nesting).Growing options state := by
  induction nesting with
  | zero => exact ⟨fun _ _ => Run.keeps_exceeded, fun _ _ => Run.keeps_exceeded⟩
  | succ nesting ih =>
      refine ⟨evaluate_grows ih, fun name source => ?_⟩
      have hbind := bind_grows ih name fun body (heq : Binding.alias source = _) => by cases heq
      exact hbind

theorem Addition.growths {registry after : Registry σ} (h : Addition registry after)
    (hgrown : Growths (new options state) registry) : Growths registry after := by
  cases h with
  | define _ nesting name binding outcome hbinding h =>
      exact bind_grows (upTo_growing nesting) name hbinding _ _ _ h hgrown trivial
  | compile source => exact .single (.compile registry source)
  | evaluate _ nesting source v outcome h =>
      exact evaluate_grows (upTo_growing nesting) source v _ _ _ h hgrown trivial
  | evaluateTree _ nesting tree v outcome h =>
      exact evaluateTree_grows (upTo_growing nesting) tree v _ _ _ h hgrown trivial
  | setHook hook hhook => exact .single (.setHook registry hook hhook)

theorem GrownFrom.growths {registry : Registry σ} (h : GrownFrom options state registry) :
    Growths (new options state) registry := by
  induction h with
  | refl => exact .refl
  | tail _ hlast ih => exact ih.trans (hlast.growths ih)

/-- As long as a registry is tame, no cycle has been shown to its hook. -/
theorem Growths.cyclicType_notMem_consulted {registry : Registry σ}
    (h : Growths (new options state) registry) (htame : registry.Tame) (name : String) :
    .cyclicType name ∉ registry.consulted := by
  induction h with
  | refl => exact List.not_mem_nil
  | @tail before after _ hlast ih =>
      have hbefore := ih (Growths.tame (.single hlast) htame)
      cases hlast with
      | consult fault hshowable =>
          rw [List.mem_append, List.mem_singleton]
          rintro (hold | rfl)
          · exact hbefore hold
          · exact hshowable name rfl (Growths.tame (.single (.consult before _ hshowable)) htame)
      | bind checked other binding hbinding hcheck =>
          rwa [consulted_bind hcheck]
      | compile source => exact hbefore
      | write state => exact hbefore
      | setHook hook _ => exact hbefore

/-- The registry after a new name has been bound, if the check finds no fault. -/
def added (registry : Registry σ) (name : String) (binding : Binding σ) : Registry σ :=
  (registry.bindFault? false name binding).2.makeBinding name binding

theorem GrownFrom.added {registry : Registry σ} (h : GrownFrom options state registry)
    (name : String) {binding : Binding σ} (hbinding : binding.Additive)
    (hcheck : (registry.bindFault? false name binding).1 = none) :
    GrownFrom options state (registry.added name binding) := by
  refine h.tail (.define registry _ 0 name binding (.ok ()) hbinding ?_)
  exact bind_run_of_valid _ (Prod.ext hcheck rfl)

-- Groups in names have to be left out as well. The text `(q)` of `p` is a name at first;
-- when it loses this meaning, as names with groups can, it refers to `q`, a later alias of `p`.
example :
    let plain := ((new .standard ()).added "(q)" (.test (.kinds .all))).added "p" (.alias "(q)")
    let read := ((plain.added "x y" (.test (.kinds .all))).compile " (q)").2
    let registry := read.added "q" (.alias "p")
    ((evaluate (.upTo 0) "p" .null).run plain).map Prod.fst = some (.ok true) ∧
      ((evaluate (.upTo 0) "p" .null).run registry).map Prod.fst =
        some (.error (.cyclicType "p")) := by
  decide +kernel

end Registry

end Switchboard
