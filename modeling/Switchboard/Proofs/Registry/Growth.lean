import Switchboard.Proofs.Registry.Closure

/-!
Registries in which nothing is bound twice. As long as no call and no program binds over
an earlier binding, names keep their bindings and their places in the order of binding. An
alias refers to names bound before it, and to later names only if they divide: such a name may
become the meaning of a text that was taken apart before. So every cycle of aliases has a link
to a name that divides and was not bound before the alias that refers to it.
-/

namespace Switchboard

variable {ι σ α : Type}

open Switchboard.Parser (Indivisible)

/-- A program that binds nothing over an earlier binding. -/
def Program.Additive : Program ι σ α → Prop
  | .done _ => True
  | .evaluate _ _ next => ∀ answer, (next answer).Additive
  | .bindAlias overriding _ _ next => overriding = false ∧ ∀ answer, (next answer).Additive
  | .readState next => ∀ state, (next state).Additive
  | .writeState _ next => next.Additive
  | .call _ next => ∀ answer, (next answer).Additive

/-- An alias, or a test that binds nothing over an earlier binding. -/
def Binding.Additive (binding : Binding σ) : Prop :=
  ∀ body, binding = .test (.custom body) → ∀ v, (body v).Additive

namespace Registry

/-- A registry whose tests and hook bind nothing over an earlier binding. -/
structure Additive (registry : Registry σ) : Prop where
  bindings : ∀ name binding, Table.get? name registry.bindings = some binding → binding.Additive
  hook : ∀ fault, (registry.hook fault).Additive

/-- The place of a name in the order of binding. -/
def position (registry : Registry σ) (name : String) : Nat :=
  (Table.keys registry.bindings).idxOf name

/-- The text of an alias reads as a name at some time or other: there are names under which it
does. -/
def MayRefer (registry : Registry σ) (name other : String) : Prop :=
  ∃ source, Table.get? name registry.bindings = some (.alias source) ∧
    ∃ defined, other ∈ (Cache.meaning defined source).names

/-- No name holds a group, no text of an alias ever reads as an alias that divides and was not
bound before, and there are no more names than an evaluation may follow aliases. -/
structure Tame (registry : Registry σ) : Prop where
  groupless : GrouplessNames registry
  ordered : ∀ name other, registry.MayRefer name other → registry.IsAlias other →
    Indivisible other ∨ registry.position other < registry.position name
  size : registry.size ≤ registry.options.maxAliasDepth

/-- One change of a registry in which nothing is bound twice; and a fault that is shown is
no cycle, as long as the registry is tame. -/
inductive Growth : Registry σ → Registry σ → Prop
  | compile (registry : Registry σ) (source : String) :
      Growth registry (registry.compile source).2
  | bind (registry checked : Registry σ) (name : String) (binding : Binding σ)
      (hbinding : binding.Additive)
      (h : registry.bindFault? false name binding = (none, checked)) :
      Growth registry (checked.makeBinding name binding)
  | consult (registry : Registry σ) (fault : Fault)
      (h : ∀ name, fault = .cyclicType name → ¬ registry.Tame) :
      Growth registry { registry with consulted := registry.consulted ++ [fault] }
  | write (registry : Registry σ) (state : σ) : Growth registry { registry with state := state }
  | setHook (registry : Registry σ) (hook : Hook σ) (h : ∀ fault, (hook fault).Additive) :
      Growth registry { registry with hook := hook }

/-- Some changes in which nothing is bound twice. -/
abbrev Growths : Registry σ → Registry σ → Prop :=
  Relation.ReflTransGen Growth

variable {registry after : Registry σ}

theorem contains_iff_mem_keys (registry : Registry σ) (name : String) :
    registry.contains name = true ↔ name ∈ Table.keys registry.bindings := by
  rw [contains, Table.contains, Option.isSome_iff_ne_none, Ne, Table.get?_eq_none_iff, not_not]

theorem position_lt_size {name : String} (h : registry.contains name = true) :
    registry.position name < registry.size := by
  have hlt := List.idxOf_lt_length_of_mem ((contains_iff_mem_keys registry name).mp h)
  rwa [Table.keys, List.length_map] at hlt

theorem Growth.step (h : Growth registry after) : Step registry after := by
  cases h with
  | compile source => exact .compile registry source
  | bind checked name binding _ h => exact .bind registry checked false name binding h
  | consult fault _ => exact .consult registry fault
  | write state => exact .write registry state
  | setHook hook _ => exact .setHook registry hook

theorem Growths.steps (h : Growths registry after) : Steps registry after :=
  Relation.ReflTransGen.mono (fun _ _ => Growth.step) _ _ h

/-- A name keeps its binding. -/
theorem Growth.get? (h : Growth registry after) {name : String} {binding : Binding σ}
    (hname : Table.get? name registry.bindings = some binding) :
    Table.get? name after.bindings = some binding := by
  cases h with
  | bind checked other _ _ h =>
      have hfree := (of_bindFault?_eq_none h).2.1 rfl
      have hne : other ≠ name := by
        rintro rfl
        rw [contains_of_get? hname] at hfree
        cases hfree
      rwa [bindings_makeBinding, Table.get?_insert_of_ne hne,
        bindings_of_bindFault?_eq_none h]
  | compile source => exact hname
  | consult fault _ => exact hname
  | write state => exact hname
  | setHook hook _ => exact hname

/-- Names are added at the end. -/
theorem Growth.keys_prefix (h : Growth registry after) :
    Table.keys registry.bindings <+: Table.keys after.bindings := by
  cases h with
  | bind checked name binding _ h =>
      rw [bindings_makeBinding, bindings_of_bindFault?_eq_none h, Table.keys_insert]
      split
      · exact List.prefix_rfl
      · exact List.prefix_append _ _
  | compile source => exact List.prefix_rfl
  | consult fault _ => exact List.prefix_rfl
  | write state => exact List.prefix_rfl
  | setHook hook _ => exact List.prefix_rfl

theorem Growths.get? (h : Growths registry after) {name : String} {binding : Binding σ}
    (hname : Table.get? name registry.bindings = some binding) :
    Table.get? name after.bindings = some binding := by
  induction h with
  | refl => exact hname
  | tail _ hlast ih => exact hlast.get? ih

theorem Growths.keys_prefix (h : Growths registry after) :
    Table.keys registry.bindings <+: Table.keys after.bindings := by
  induction h with
  | refl => exact List.prefix_rfl
  | tail _ hlast ih => exact ih.trans hlast.keys_prefix

/-- A name keeps its place. -/
theorem Growths.position_eq (h : Growths registry after) {name : String}
    (hname : registry.contains name = true) : after.position name = registry.position name := by
  obtain ⟨later, hkeys⟩ := h.keys_prefix
  rw [position, position, ← hkeys]
  exact List.idxOf_append_of_mem ((contains_iff_mem_keys registry name).mp hname)

/-- A new name stands behind all names bound before. -/
theorem position_lt_makeBinding {checked : Registry σ} {name : String} {binding : Binding σ}
    (hcheck : registry.bindFault? false name binding = (none, checked)) {other : String}
    (hother : registry.contains other = true) :
    (checked.makeBinding name binding).position other <
      (checked.makeBinding name binding).position name := by
  have hmem := (contains_iff_mem_keys registry other).mp hother
  have hfresh : name ∉ Table.keys registry.bindings := by
    rw [← contains_iff_mem_keys, (of_bindFault?_eq_none hcheck).2.1 rfl]
    exact Bool.false_ne_true
  rw [position, position, bindings_makeBinding, bindings_of_bindFault?_eq_none hcheck,
    Table.keys_insert, if_neg hfresh, List.idxOf_append_of_mem hmem,
    List.idxOf_append_of_notMem hfresh, List.idxOf_cons_self, Nat.add_zero]
  exact List.idxOf_lt_length_of_mem hmem

theorem Growths.contains (h : Growths registry after) {name : String}
    (hname : registry.contains name = true) : after.contains name = true :=
  Steps.contains h.steps hname

theorem Growths.options_eq (h : Growths registry after) : after.options = registry.options :=
  Steps.options_eq h.steps

/-- A registry was tame before if it is tame now. -/
theorem Growths.tame (h : Growths registry after) (htame : after.Tame) : registry.Tame where
  groupless name hname := htame.groupless name (h.contains hname)
  ordered name other hrefers halias := by
    obtain ⟨source, hsource, hother⟩ := hrefers
    obtain ⟨text, htext⟩ := halias
    have hlink := htame.ordered name other ⟨source, h.get? hsource, hother⟩ ⟨text, h.get? htext⟩
    rwa [h.position_eq (contains_of_get? hsource), h.position_eq (contains_of_get? htext)] at hlink
  size := by
    have hlength := h.keys_prefix.length_le
    rw [Table.keys, List.length_map, Table.keys, List.length_map] at hlength
    have hsize := htame.size
    rw [h.options_eq] at hsize
    exact hlength.trans hsize

theorem Additive.growth (h : registry.Additive) (hgrowth : Growth registry after) :
    after.Additive := by
  cases hgrowth with
  | bind checked name binding hbinding hcheck =>
      have hframe : (checked.makeBinding name binding).hook = registry.hook := by
        obtain ⟨_, _, ⟨_, _, rfl⟩ | ⟨_, _, rfl, _⟩⟩ := of_bindFault?_eq_none hcheck <;>
          rw [makeBinding] <;> split <;> rfl
      refine ⟨?_, by rw [hframe]; exact h.hook⟩
      intro other found hfound
      rw [bindings_makeBinding, bindings_of_bindFault?_eq_none hcheck,
        Table.get?_insert] at hfound
      split at hfound
      · cases hfound
        exact hbinding
      · exact h.bindings other found hfound
  | compile source => exact ⟨h.bindings, h.hook⟩
  | consult fault _ => exact ⟨h.bindings, h.hook⟩
  | write state => exact ⟨h.bindings, h.hook⟩
  | setHook hook hhook => exact ⟨h.bindings, hhook⟩

theorem additive_new (options : Options) (state : σ) : (new options state).Additive where
  bindings name binding hbinding body hbody v := by
    rw [hbody] at hbinding
    obtain ⟨result, hdone⟩ := pureTests_new options state name body hbinding v
    rw [hdone]
    trivial
  hook _ := trivial

theorem Growths.additive {options : Options} {state : σ}
    (h : Growths (new options state) registry) : registry.Additive := by
  induction h with
  | refl => exact additive_new options state
  | tail _ hlast ih => exact ih.growth hlast

theorem Growths.coherent {options : Options} {state : σ}
    (h : Growths (new options state) registry) (hgroupless : GrouplessNames registry) :
    Coherent (new options state).contains registry :=
  coherent_of_steps h.steps hgroupless

/-- What an alias refers to now, its text reads as under the names of some earlier time. -/
theorem Coherent.mayRefer {initial : String → Bool} (h : Coherent initial registry)
    {name other : String} (hrefers : registry.Refers name other) :
    registry.MayRefer name other := by
  obtain ⟨source, hsource, hother⟩ := hrefers
  obtain ⟨defined, _, hreading⟩ := h.dated.exists_earlier h.groupless h.kept source
  exact ⟨source, hsource, defined, by rwa [← hreading]⟩

/-- An alias refers to names bound before it, as far as they do not divide. -/
def Ordered (registry : Registry σ) : Prop :=
  ∀ name other, registry.Refers name other → Indivisible other →
    registry.position other < registry.position name

theorem ordered_new (options : Options) (state : σ) : Ordered (new options state) := by
  intro name other hrefers _
  have ⟨source, hsource, _⟩ := hrefers
  have hbuiltins := ((contains_new_iff options state name).mp (contains_of_get? hsource)).1
  have hkeys : Table.keys (new options state).bindings = builtinNames := by
    rw [new, if_pos hbuiltins, keys_builtins]
  rw [position, position, hkeys]
  exact (of_refers_new hrefers).2

theorem Ordered.frame (h : registry.Ordered) (hbindings : after.bindings = registry.bindings)
    (hreading : ∀ source, after.reading source = registry.reading source) : after.Ordered := by
  rintro name other ⟨source, hsource, hother⟩
  rw [hbindings] at hsource
  rw [hreading] at hother
  rw [position, position, hbindings]
  exact h name other ⟨source, hsource, hother⟩

theorem Ordered.growth {initial : String → Bool} (h : registry.Ordered)
    (hcoherent : Coherent initial registry) (hgrowth : Growth registry after) :
    after.Ordered := by
  have hposition {name : String} (hname : registry.contains name = true) :
      after.position name = registry.position name :=
    Growths.position_eq (.single hgrowth) hname
  cases hgrowth with
  | bind checked name binding hbinding hcheck =>
      intro other referenced hrefers hwhole
      rcases hcoherent.refers_makeBinding hcheck hrefers with
        ⟨hbound, _, rfl⟩ | ⟨hbefore, _⟩ | ⟨rfl, _, hdivides⟩
      · exact position_lt_makeBinding hcheck hbound
      · have hother : registry.contains other = true := by
          obtain ⟨source, hsource, _⟩ := hbefore
          exact contains_of_get? hsource
        rw [hposition hother, hposition (hcoherent.closed other referenced hbefore)]
        exact h other referenced hbefore hwhole
      · exact absurd hwhole hdivides
  | compile source =>
      exact h.frame rfl fun other => reading_compile hcoherent.groupless source other
  | consult fault _ => exact h.frame rfl (reading_congr rfl rfl)
  | write state => exact h.frame rfl (reading_congr rfl rfl)
  | setHook hook _ => exact h.frame rfl (reading_congr rfl rfl)

theorem Growths.ordered {options : Options} {state : σ}
    (h : Growths (new options state) registry) (hgroupless : GrouplessNames registry) :
    registry.Ordered := by
  induction h with
  | refl => exact ordered_new options state
  | tail hfirst hlast ih =>
      have hbefore := fun name hname => hgroupless name (Growths.contains (.single hlast) hname)
      exact (ih hbefore).growth (Growths.coherent hfirst hbefore) hlast

/-- Every cycle of aliases has a link to a name that divides and was not bound before the alias
that refers to it. -/
theorem Growths.acyclic {options : Options} {state : σ}
    (h : Growths (new options state) registry) (hgroupless : GrouplessNames registry)
    (name : String) : ¬ Relation.TransGen (fun name other => registry.Refers name other ∧
      (Indivisible other ∨ registry.position other < registry.position name)) name name := by
  intro hleads
  have hfalls : Relation.TransGen (fun m n : Nat => n < m) (registry.position name)
      (registry.position name) := by
    refine hleads.lift registry.position fun name other ⟨hrefers, hlink⟩ => ?_
    exact hlink.elim (h.ordered hgroupless name other hrefers) id
  rw [Relation.transGen_eq_self] at hfalls
  exact Nat.lt_irrefl _ hfalls

end Registry

end Switchboard
