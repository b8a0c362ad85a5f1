import Switchboard.Proofs.Dispatch.Ending
import Switchboard.Proofs.Dispatch.InTurn
import Switchboard.Proofs.Registry.Outcome

/-!
Registries that no test can tell apart. Two registries are twins if they read alike, keep the
same state of the user and have shown the same faults; only the texts that they have cached
can differ. If tests and hook leave the registry alone and no name holds a group, a test has
the same outcome on twins and leaves twins, whatever the hook says. So tests that are made in
turn come to the same end on twins.
-/

namespace Switchboard

variable {σ S α β : Type}

namespace Registry

/-- A registry that reads like another, with the same state and the same faults shown. -/
structure Twins (left right : Registry σ) : Prop where
  like : left.ReadsLike right
  consulted : right.consulted = left.consulted
  state : right.state = left.state

theorem Twins.refl (registry : Registry σ) : registry.Twins registry :=
  ⟨.refl registry, rfl, rfl⟩

theorem Twins.trans {registry middle after : Registry σ} (hfirst : registry.Twins middle)
    (hsecond : middle.Twins after) : registry.Twins after where
  like :=
    { options := hsecond.like.options.trans hfirst.like.options
      bindings := hsecond.like.bindings.trans hfirst.like.bindings
      hook := hsecond.like.hook.trans hfirst.like.hook
      reading := fun source =>
        (hsecond.like.reading source).trans (hfirst.like.reading source) }
  consulted := hsecond.consulted.trans hfirst.consulted
  state := hsecond.state.trans hfirst.state

/-- Twins that have seen the same fault are twins. -/
theorem Twins.shown {left right : Registry σ} (h : left.Twins right) (fault : Fault)
    (state : σ) : (left.shown fault state).Twins (right.shown fault state) where
  like :=
    { options := h.like.options
      bindings := h.like.bindings
      hook := h.like.hook
      reading := h.like.reading }
  consulted := congrArg (· ++ [fault]) h.consulted
  state := rfl

theorem Twins.framed {left right : Registry σ} (h : left.Twins right) : left.Framed right :=
  ⟨h.like.options, h.like.bindings, h.like.hook⟩

/-- Compiling a text makes a twin. -/
theorem twins_compile {registry : Registry σ} (hnames : GrouplessNames registry)
    (source : String) : registry.Twins (registry.compile source).2 :=
  ⟨(ReadsLike.refl registry).compile hnames source, rfl, rfl⟩

theorem Twins.compile {left right : Registry σ} (h : left.Twins right)
    (hnames : GrouplessNames left) (source : String) :
    (left.compile source).2.Twins (right.compile source).2 where
  like :=
    { options := h.like.options
      bindings := h.like.bindings
      hook := h.like.hook
      reading := fun other => by
        rw [reading_compile (hnames.framed h.framed), reading_compile hnames, h.like.reading] }
  consulted := h.consulted
  state := h.state

end Registry

open Registry (Twins Unattended GrouplessNames)

/-- An attempt that comes to the same end on twins, and leaves twins. -/
def Attempt.Tied (attempt : Attempt σ α) : Prop :=
  ∀ left right : Registry σ, GrouplessNames left → left.Unattended → left.Twins right →
    ∃ outcome leftAfter rightAfter, attempt.run left = some (outcome, leftAfter) ∧
      attempt.run right = some (outcome, rightAfter) ∧ left.Framed leftAfter ∧
      leftAfter.Twins rightAfter

theorem Attempt.tied_pure (result : α) : Attempt.Tied (pure result : Attempt σ α) :=
  fun left right _ _ h => ⟨.ok result, left, right, rfl, rfl, .refl left, h⟩

theorem Attempt.Tied.bind {attempt : Attempt σ α} {next : α → Attempt σ β}
    (hattempt : attempt.Tied) (hnext : ∀ result, (next result).Tied) :
    (attempt >>= next).Tied := by
  intro left right hnames hleft h
  obtain ⟨outcome, leftMiddle, rightMiddle, hleftRun, hrightRun, hframed, hmiddle⟩ :=
    hattempt left right hnames hleft h
  cases outcome with
  | error fault =>
      exact ⟨.error fault, leftMiddle, rightMiddle, Attempt.run_bind_error hleftRun,
        Attempt.run_bind_error hrightRun, hframed, hmiddle⟩
  | ok result =>
      rw [Attempt.run_bind_ok hleftRun, Attempt.run_bind_ok hrightRun]
      obtain ⟨outcome, leftAfter, rightAfter, hleftRun, hrightRun, hframed', hafter⟩ :=
        hnext result _ _ (hnames.framed hframed) (hleft.framed hframed) hmiddle
      exact ⟨outcome, leftAfter, rightAfter, hleftRun, hrightRun, hframed.trans hframed', hafter⟩

theorem recover_tied (answers : Answers σ) (fault : Fault) : (recover answers fault).Tied := by
  intro left right _ hleft h
  obtain ⟨outcome, last, hrun⟩ := hleft.recover_run answers fault
  exact ⟨outcome, _, _, hrun left rfl rfl, hrun right h.like.hook h.state,
    Registry.framed_shown left fault last, h.shown fault last⟩

/-- A name answers the same on twins. -/
theorem Registry.resolve_tied {answers : Answers σ}
    {follow : String → String → Value → Attempt σ Bool}
    (hfollow : ∀ name source v, (follow name source v).Tied) (name : String) (v : Value) :
    (resolve answers follow name v).Tied := by
  intro left right hnames hleft h
  rw [resolve_run, resolve_run, h.like.bindings]
  rcases hbinding : Table.get? name left.bindings with _ | test | source
  · exact (recover_tied answers (.unknownType name)).bind
      (fun _ => Attempt.tied_pure false) left right hnames hleft h
  · obtain ⟨result, last, hrun⟩ := hleft.check_run hbinding answers v
    refine ⟨.ok result, { left with state := last }, { right with state := last },
      Attempt.run_lift (hrun left rfl), Attempt.run_lift (hrun right h.state), ⟨rfl, rfl, rfl⟩, ?_⟩
    exact ⟨⟨h.like.options, h.like.bindings, h.like.hook, h.like.reading⟩, h.consulted, rfl⟩
  · exact hfollow name source v left right hnames hleft h

/-- All tests come to the same end on twins. -/
theorem tied_compositional (answers : Answers σ) :
    Attempt.Compositional answers (Attempt.Tied (σ := σ)) where
  pure := Attempt.tied_pure
  bind := Attempt.Tied.bind
  resolve := Registry.resolve_tied
  cyclic name := (recover_tied answers (.cyclicType name)).bind fun _ => Attempt.tied_pure false
  compile {_ next} hnext source := by
    intro left right hnames hleft h
    have hrun := hnext (left.reading source) (left.compile source).2 (right.compile source).2
      hnames (hleft.frame rfl rfl) (h.compile hnames source)
    obtain ⟨outcome, leftAfter, rightAfter, hleftRun, hrightRun, hframed, hafter⟩ := hrun
    refine ⟨outcome, leftAfter, rightAfter, hleftRun, ?_,
      ⟨hframed.options, hframed.bindings, hframed.hook⟩, hafter⟩
    rw [← h.like.reading source] at hrightRun
    exact hrightRun
  settings {_ next} hnext := by
    intro left right hnames hleft h
    rw [Attempt.run_get_bind, Attempt.run_get_bind, h.like.options]
    exact hnext left.options.maxAliasDepth left right hnames hleft h

/-- Attempts in turn come to the same end on twins. -/
theorem Attempt.Reaches.twins {attempts : List (Attempt σ α)} {left right leftAfter : Registry σ}
    {results : List α} {outcome : Except Fault α}
    (h : Reaches attempts left results outcome leftAfter)
    (hattempts : ∀ attempt ∈ attempts, attempt.Tied) (hnames : GrouplessNames left)
    (hleft : left.Unattended) (htwins : left.Twins right) :
    ∃ rightAfter, Reaches attempts right results outcome rightAfter ∧
      leftAfter.Twins rightAfter := by
  -- the tests find twins and leave twins, so the next ones find twins again
  induction h generalizing right with
  | here hrun =>
      obtain ⟨_, _, rightAfter, hleftRun, hrightRun, _, hafter⟩ :=
        hattempts _ List.mem_cons_self _ right hnames hleft htwins
      rw [hrun] at hleftRun
      cases hleftRun
      exact ⟨rightAfter, .here hrightRun, hafter⟩
  | later hrun _ ih =>
      obtain ⟨_, _, rightMiddle, hleftRun, hrightRun, hframed, hmiddle⟩ :=
        hattempts _ List.mem_cons_self _ right hnames hleft htwins
      rw [hrun] at hleftRun
      cases hleftRun
      obtain ⟨rightAfter, hreaches, hafter⟩ :=
        ih (fun attempt hattempt => hattempts attempt (List.mem_cons_of_mem _ hattempt))
          (hnames.framed hframed) (hleft.framed hframed) hmiddle
      exact ⟨rightAfter, .later hrightRun hreaches, hafter⟩

end Switchboard
