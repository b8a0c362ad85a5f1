import Switchboard.Proofs.Registry.Outcome

/-!
Aliases as abbreviations. Inlining a tree puts in the place of every alias the tree of its
text, inlined in turn, until no alias is left. If no alias leads back to itself and no
chain of aliases is longer than an evaluation may follow, every tree can be inlined, in
one way only, and the tree and the inlined tree evaluate to the same result or fault.
-/

namespace Switchboard.Registry

variable {σ : Type} {registry : Registry σ} {answer : Fault → Except Fault Bool}

/-- The second tree is the first with all aliases replaced. -/
inductive Inlines (registry : Registry σ) : Expr → Expr → Prop
  | alias {name source : String} {inlined : Expr}
      (hname : Table.get? name registry.bindings = some (.alias source))
      (h : Inlines registry (registry.reading source) inlined) :
      Inlines registry (.named name) inlined
  | name {name : String} (hname : ¬ registry.IsAlias name) :
      Inlines registry (.named name) (.named name)
  | or {left right left' right' : Expr} (hleft : Inlines registry left left')
      (hright : Inlines registry right right') :
      Inlines registry (.or left right) (.or left' right')
  | and {left right left' right' : Expr} (hleft : Inlines registry left left')
      (hright : Inlines registry right right') :
      Inlines registry (.and left right) (.and left' right')
  | not {inner inner' : Expr} (h : Inlines registry inner inner') :
      Inlines registry (.not inner) (.not inner')
  | arrayOf {inner inner' : Expr} (h : Inlines registry inner inner') :
      Inlines registry (.arrayOf inner) (.arrayOf inner')

/-- A tree can be inlined in one way only. -/
theorem Inlines.unique {tree inlined other : Expr} (h : registry.Inlines tree inlined)
    (hother : registry.Inlines tree other) : other = inlined := by
  induction h generalizing other with
  | «alias» hname _ ih =>
      cases hother with
      | «alias» hagain hother =>
          rw [hname] at hagain
          cases hagain
          exact ih hother
      | name hnone => exact absurd ⟨_, hname⟩ hnone
  | name hnone =>
      cases hother with
      | «alias» hname _ => exact absurd ⟨_, hname⟩ hnone
      | name _ => rfl
  | or _ _ ihl ihr =>
      cases hother with
      | or hleft hright => rw [ihl hleft, ihr hright]
  | and _ _ ihl ihr =>
      cases hother with
      | and hleft hright => rw [ihl hleft, ihr hright]
  | not _ ih =>
      cases hother with
      | not hinner => rw [ih hinner]
  | arrayOf _ ih =>
      cases hother with
      | arrayOf hinner => rw [ih hinner]

/-- No alias is left in an inlined tree. -/
theorem Inlines.not_isAlias {tree inlined : Expr} (h : registry.Inlines tree inlined) :
    ∀ name ∈ inlined.names, ¬ registry.IsAlias name := by
  induction h with
  | «alias» _ _ ih => exact ih
  | name hname =>
      intro other hother
      rwa [List.mem_singleton.mp hother]
  | or _ _ ihl ihr | and _ _ ihl ihr =>
      intro name hname
      rcases List.mem_append.mp hname with hname | hname
      · exact ihl name hname
      · exact ihr name hname
  | not _ ih | arrayOf _ ih => exact ih

/-- A tree can be inlined if its names can. -/
theorem exists_inlines_of_names {tree : Expr}
    (h : ∀ name ∈ tree.names, ∃ inlined, registry.Inlines (.named name) inlined) :
    ∃ inlined, registry.Inlines tree inlined := by
  induction tree with
  | named name => exact h name (List.mem_singleton_self name)
  | or left right ihl ihr =>
      obtain ⟨left', hleft⟩ := ihl fun name hname => h name (List.mem_append_left _ hname)
      obtain ⟨right', hright⟩ := ihr fun name hname => h name (List.mem_append_right _ hname)
      exact ⟨.or left' right', .or hleft hright⟩
  | and left right ihl ihr =>
      obtain ⟨left', hleft⟩ := ihl fun name hname => h name (List.mem_append_left _ hname)
      obtain ⟨right', hright⟩ := ihr fun name hname => h name (List.mem_append_right _ hname)
      exact ⟨.and left' right', .and hleft hright⟩
  | not inner ih =>
      obtain ⟨inner', hinner⟩ := ih h
      exact ⟨.not inner', .not hinner⟩
  | arrayOf inner ih =>
      obtain ⟨inner', hinner⟩ := ih h
      exact ⟨.arrayOf inner', .arrayOf hinner⟩

/-- No path from the tree follows more aliases than this. -/
def WithinHops (registry : Registry σ) : Nat → Expr → Prop
  | 0, tree => ∀ name ∈ tree.names, ¬ registry.IsAlias name
  | hops + 1, tree => ∀ name ∈ tree.names, ∀ source,
      Table.get? name registry.bindings = some (.alias source) →
        WithinHops registry hops (registry.reading source)

theorem WithinHops.of_names {hops : Nat} {tree part : Expr} (h : registry.WithinHops hops tree)
    (hnames : ∀ name ∈ part.names, name ∈ tree.names) : registry.WithinHops hops part := by
  cases hops with
  | zero => exact fun name hname => h name (hnames name hname)
  | succ hops => exact fun name hname => h name (hnames name hname)

/-- A tree stays within the length of the longest chain of aliases that starts in it. -/
theorem withinHops_of_chains {hops : Nat} {tree : Expr}
    (h : ∀ name ∈ tree.names, ∀ chain, (name :: chain).IsChain registry.Refers →
      (∀ other ∈ name :: chain, registry.IsAlias other) → chain.length < hops) :
    registry.WithinHops hops tree := by
  induction hops generalizing tree with
  | zero =>
      intro name hname halias
      have hempty := h name hname [] (.singleton name) (by simpa using halias)
      exact absurd hempty (Nat.not_lt_zero _)
  | succ hops ih =>
      intro name hname source hsource
      apply ih
      intro next hnext chain hchain haliases
      have hlonger : (next :: chain).length < hops + 1 := by
        apply h name hname (next :: chain)
        · exact .cons_cons ⟨source, hsource, hnext⟩ hchain
        · exact List.forall_mem_cons.mpr ⟨⟨source, hsource⟩, haliases⟩
      exact Nat.lt_of_succ_lt_succ hlonger

/-- A tree that leads through finitely many aliases can be inlined. -/
theorem WithinHops.exists_inlines {hops : Nat} {tree : Expr} (h : registry.WithinHops hops tree) :
    ∃ inlined, registry.Inlines tree inlined := by
  induction hops generalizing tree with
  | zero => exact exists_inlines_of_names fun name hname => ⟨_, .name (h name hname)⟩
  | succ hops ih =>
      refine exists_inlines_of_names fun name hname => ?_
      by_cases halias : registry.IsAlias name
      · obtain ⟨source, hsource⟩ := halias
        obtain ⟨inlined, hinlined⟩ := ih (h name hname source hsource)
        exact ⟨inlined, .alias hsource hinlined⟩
      · exact ⟨_, .name halias⟩

/-- A name that is no alias has its outcome whatever aliases have. -/
theorem nameOutcome_of_not_isAlias {name : String} (h : ¬ registry.IsAlias name)
    (follow follow' : String → String → Value → Except Fault Bool) :
    registry.nameOutcome answer follow name = registry.nameOutcome answer follow' name := by
  funext v
  rw [nameOutcome, nameOutcome]
  cases hbinding : Table.get? name registry.bindings with
  | none => rfl
  | some binding =>
      cases binding with
      | test test => rfl
      | «alias» source => exact absurd ⟨source, hbinding⟩ h

/-- A tree and the inlined tree have the same outcome, with enough hops for the tree. -/
theorem Inlines.outcomeFrom_eq {tree inlined : Expr} (h : registry.Inlines tree inlined)
    {hops : Nat} (hwithin : registry.WithinHops hops tree) (others : Nat) (v : Value) :
    registry.outcomeFrom answer hops tree v = registry.outcomeFrom answer others inlined v := by
  induction h generalizing hops v with
  | @«alias» name source inlined hname _ ih =>
      cases hops with
      | zero => exact absurd ⟨source, hname⟩ (hwithin name (List.mem_singleton_self name))
      | succ hops =>
          rw [← ih (hwithin name (List.mem_singleton_self name) source hname)]
          simp only [outcomeFrom, Expr.outcomeWith, nameOutcome, hname]
  | name hname =>
      simp only [Registry.outcomeFrom_eq, Expr.outcomeWith]
      rw [nameOutcome_of_not_isAlias hname]
  | or _ _ ihl ihr | and _ _ ihl ihr =>
      have hleft := ihl (hwithin.of_names fun name hname => List.mem_append_left _ hname)
      have hright := ihr (hwithin.of_names fun name hname => List.mem_append_right _ hname)
      simp only [Registry.outcomeFrom_eq, Expr.outcomeWith] at hleft hright ⊢
      rw [hleft, hright]
  | not _ ih =>
      have hinner := ih (hwithin.of_names fun name hname => hname)
      simp only [Registry.outcomeFrom_eq, Expr.outcomeWith] at hinner ⊢
      rw [hinner]
  | arrayOf _ ih =>
      have hinner := funext (ih (hwithin.of_names fun name hname => hname))
      simp only [Registry.outcomeFrom_eq] at hinner ⊢
      cases v with
      | array items => rw [Expr.outcomeWith, hinner, Expr.outcomeWith]
      | _ => rfl

/-- A fault of an inlined tree, under a hook that raises, is an unknown name of it. -/
theorem Inlines.eq_unknownType {tree inlined : Expr} (h : registry.Inlines tree inlined)
    {hops : Nat} {v : Value} {fault : Fault}
    (hfault : registry.outcomeFrom .error hops inlined v = .error fault) :
    ∃ name ∈ inlined.names, registry.contains name = false ∧ fault = .unknownType name := by
  rw [Registry.outcomeFrom_eq] at hfault
  obtain ⟨name, hname, w, hresolve⟩ := Expr.exists_of_outcomeWith_error hfault
  rw [nameOutcome] at hresolve
  cases hbinding : Table.get? name registry.bindings with
  | none =>
      rw [hbinding] at hresolve
      cases hresolve
      exact ⟨name, hname, by rw [contains, Table.contains, hbinding]; rfl, rfl⟩
  | some binding =>
      cases binding with
      | test test =>
          rw [hbinding] at hresolve
          cases hresolve
      | «alias» source => exact absurd ⟨source, hbinding⟩ (h.not_isAlias name hname)

/-- Names that refer to each other in a row are all different, if no name leads back to
itself. -/
theorem nodup_of_isChain (hacyclic : ∀ name, ¬ Relation.TransGen registry.Refers name name)
    {chain : List String} (h : chain.IsChain registry.Refers) : chain.Nodup := by
  have hpairs : chain.Pairwise (Relation.TransGen registry.Refers) :=
    List.isChain_iff_pairwise.mp (h.imp fun _ _ => .single)
  refine hpairs.imp ?_
  rintro name _ hleads rfl
  exact hacyclic name hleads

/-- Every tree can be inlined in exactly one way, no alias is left, and both trees
evaluate to the same result or the same unknown name: if the hook raises every fault, tests
are pure, no name has a parenthesis, no alias leads back to itself, and no chain of aliases
is longer than the allowed number of hops. -/
theorem evaluateTree_inlined {answers : Answers σ} {registry : Registry σ}
    (hraises : Raises answers registry.hook) (htests : PureTests registry)
    (hparens : ∀ name, registry.contains name = true → '(' ∉ name.toList ∧ ')' ∉ name.toList)
    (hacyclic : ∀ name, ¬ Relation.TransGen registry.Refers name name)
    (hchains : ∀ chain : List String, chain.Nodup → chain.IsChain registry.Refers →
      (∀ name ∈ chain, registry.IsAlias name) → chain.length ≤ registry.options.maxAliasDepth)
    (tree : Expr) :
    ∃ inlined, registry.Inlines tree inlined ∧
      (∀ other, registry.Inlines tree other → other = inlined) ∧
      (∀ name ∈ inlined.names, ¬ registry.IsAlias name) ∧
      ∀ v, ∃ outcome after inlinedAfter,
        (evaluateTree answers tree v).run registry = some (outcome, after) ∧
        (evaluateTree answers inlined v).run registry = some (outcome, inlinedAfter) ∧
        ∀ fault, outcome = .error fault →
          ∃ name ∈ inlined.names, registry.contains name = false ∧ fault = .unknownType name := by
  have hnames : GrouplessNames registry := fun name hname =>
    Groups.groupless_of_notMem (hparens name hname).1
  have hwithin : registry.WithinHops registry.options.maxAliasDepth tree := by
    apply withinHops_of_chains
    intro name _ chain hchain haliases
    exact hchains (name :: chain) (nodup_of_isChain hacyclic hchain) hchain haliases
  obtain ⟨inlined, hinlined⟩ := hwithin.exists_inlines
  refine ⟨inlined, hinlined, fun other hother => hinlined.unique hother, hinlined.not_isAlias, ?_⟩
  intro v
  have hcomputes (tree : Expr) :=
    evaluateTree_computes (fun fault => orFalse_computes hraises fault) htests hnames tree v
  obtain ⟨after, hrun, _⟩ := hcomputes tree registry (.refl registry)
  obtain ⟨inlinedAfter, hinlinedRun, _⟩ := hcomputes inlined registry (.refl registry)
  rw [hinlined.outcomeFrom_eq hwithin registry.options.maxAliasDepth v] at hrun
  exact ⟨_, after, inlinedAfter, hrun, hinlinedRun, fun fault hfault =>
    hinlined.eq_unknownType hfault⟩

/-- No name leads back to itself if every alias refers to names of lower rank. -/
theorem acyclic_of_rank (rank : String → Nat)
    (h : ∀ name other, registry.Refers name other → rank other < rank name) (name : String) :
    ¬ Relation.TransGen registry.Refers name name := by
  intro hleads
  have hfalls : Relation.TransGen (fun m n : Nat => n < m) (rank name) (rank name) :=
    hleads.lift rank h
  rw [Relation.transGen_eq_self] at hfalls
  exact Nat.lt_irrefl _ hfalls

/-- In a new registry, arrays of what is set are arrays of what is neither undefined nor
null, so an array with a null is none of them. -/
theorem evaluateTree_inlined_set :
    let registry := new .standard ()
    let inlined : Expr := .arrayOf (.not (.or (.named "undefined") (.named "null")))
    let v : Value := .array [.string "a", .null]
    registry.Inlines (.arrayOf (.named "set")) inlined ∧
      ((evaluateTree .exceeded (.arrayOf (.named "set")) v).run registry).map Prod.fst =
        some (.ok false) ∧
      ((evaluateTree .exceeded inlined v).run registry).map Prod.fst = some (.ok false) := by
  intro registry inlined v
  have hchains (chain : List String) (hnodup : chain.Nodup) (_ : chain.IsChain registry.Refers)
      (haliases : ∀ name ∈ chain, registry.IsAlias name) : chain.length ≤ 64 := by
    have hsub : chain ⊆ builtinNames := by
      intro name hname
      obtain ⟨source, hsource⟩ := haliases name hname
      exact ((contains_new_iff .standard () name).mp (contains_of_get? hsource)).2
    exact (hnodup.subperm hsub).length_le.trans (by decide)
  have hset : registry.reading "not unset" = .not (.named "unset") := by decide +kernel
  have hunset : registry.reading "undefined or null" = .or (.named "undefined") (.named "null") := by
    decide +kernel
  have hundefined : ¬ registry.IsAlias "undefined" := by
    rintro ⟨source, hsource⟩
    cases hsource
  have hnull : ¬ registry.IsAlias "null" := by
    rintro ⟨source, hsource⟩
    cases hsource
  have hinlines : registry.Inlines (.arrayOf (.named "set")) inlined := by
    refine .arrayOf (.alias rfl ?_)
    rw [hset]
    refine .not (.alias rfl ?_)
    rw [hunset]
    exact .or (.name hundefined) (.name hnull)
  obtain ⟨_, _, hunique, _, hrun⟩ := evaluateTree_inlined (raises_raising .exceeded)
    (pureTests_new .standard ()) (fun _ => paren_notMem_of_contains_new)
    (acyclic_of_rank _ fun _ _ hrefers => (of_refers_new hrefers).2) hchains
    (.arrayOf (.named "set"))
  obtain rfl := hunique inlined hinlines
  have houtcome : ((evaluateTree .exceeded (.arrayOf (.named "set")) v).run registry).map
      Prod.fst = some (.ok false) := by decide +kernel
  obtain ⟨outcome, after, inlinedAfter, htree, hinlinedRun, _⟩ := hrun v
  refine ⟨hinlines, houtcome, ?_⟩
  rw [htree] at houtcome
  rw [hinlinedRun]
  exact houtcome

end Switchboard.Registry
