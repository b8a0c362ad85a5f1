import Switchboard.Proofs.Printing.Legible
import Switchboard.Proofs.Registry.Meaning
import Switchboard.Proofs.Registry.Precedence

/-!
Compiling what a compiled text prints. In a registry with the built-in names and no
others, the tree of a text comes back from its printed text if and only if it is legible.
The groups of a printed text are those that were printed, as long as no name of the tree
has a parenthesis of its own. Such a name comes from an unpaired parenthesis; it does no
harm where no group is printed.
-/

namespace Switchboard

open Text
open Switchboard.Spelling (between normalChars normalize)
open Switchboard.Parser (ReadNames ArrayNamed parseFlat notWord arrayWord)
open Switchboard.Groups (Groupless)

namespace Groups

/-- The parentheses of a text. -/
def parens (text : List Char) : List Char :=
  text.filter fun c => c == '(' || c == ')'

theorem parens_append (before after : List Char) :
    parens (before ++ after) = parens before ++ parens after :=
  List.filter_append before after

theorem parens_eq_nil {text : List Char} (hopen : '(' ∉ text) (hclose : ')' ∉ text) :
    parens text = [] := by
  rw [parens, List.filter_eq_nil_iff]
  intro c hc hparen
  rw [Bool.or_eq_true, beq_iff_eq, beq_iff_eq] at hparen
  rcases hparen with rfl | rfl
  · exact hopen hc
  · exact hclose hc

theorem parens_inked (text : List Char) : parens (inked text) = parens text := by
  rw [parens, inked, List.filter_filter, parens]
  apply List.filter_congr
  intro c _
  by_cases hopen : c = '('
  · rw [hopen]
    decide
  · by_cases hclose : c = ')'
    · rw [hclose]
      decide
    · simp [hopen, hclose]

theorem sublist_of_cutAtClose?_eq_none {text : List Char} (h : cutAtClose? text = none)
    (hclose : ')' ∈ text) : ['(', ')'].Sublist text := by
  induction text with
  | nil => cases hclose
  | cons c rest ih =>
      rw [cutAtClose?] at h
      split at h
      · cases h
      · next hc =>
          have hrest : ')' ∈ rest := (List.mem_cons.mp hclose).resolve_left (Ne.symm hc)
          split at h
          · next hopen =>
              rw [hopen]
              exact (List.singleton_sublist.mpr hrest).cons_cons '('
          · exact (ih (Option.map_eq_none_iff.mp h) hrest).cons c

/-- A text holds a group as soon as a parenthesis closes anywhere behind an opening
one. -/
theorem groupless_iff (text : List Char) : Groupless text ↔ ¬ ['(', ')'].Sublist text := by
  constructor
  · intro h hsub
    induction text with
    | nil => cases hsub
    | cons c rest ih =>
        rw [Groupless, innermost?] at h
        split at h
        · cases h
        · next hcut =>
            have hrest : Groupless rest := Option.map_eq_none_iff.mp h
            rcases List.sublist_cons_iff.mp hsub with hsub | ⟨tail, heq, hsub⟩
            · exact ih hrest hsub
            · cases heq
              rw [if_pos rfl] at hcut
              exact ih hrest
                (sublist_of_cutAtClose?_eq_none hcut (List.singleton_sublist.mp hsub))
  · intro h
    by_contra hsome
    obtain ⟨⟨before, inner, after⟩, hfound⟩ := Option.ne_none_iff_exists'.mp hsome
    obtain ⟨rfl, _, _⟩ := eq_of_innermost? hfound
    apply h
    have hclose : [')'].Sublist (inner ++ ')' :: after) :=
      List.singleton_sublist.mpr (by simp)
    have hgroup : ['(', ')'].Sublist ('(' :: (inner ++ ')' :: after)) := hclose.cons_cons '('
    rw [List.append_assoc]
    exact hgroup.trans (List.sublist_append_right before _)

/-- Whether a text holds a group shows in its parentheses alone. -/
theorem groupless_congr {text text' : List Char} (h : parens text = parens text') :
    Groupless text ↔ Groupless text' := by
  have hparens (text : List Char) :
      ['(', ')'].Sublist text ↔ ['(', ')'].Sublist (parens text) := by
    refine ⟨fun hsub => ?_, fun hsub => hsub.trans List.filter_sublist⟩
    exact hsub.filter fun c => c == '(' || c == ')'
  rw [groupless_iff, groupless_iff, hparens text, h, ← hparens]

end Groups

namespace Expr

open Switchboard.Groups (parens)

theorem parens_between (operator : Operator) (before after : List Char) :
    parens (between before operator.keyword after) = parens before ++ parens after := by
  have hgap (plain : Option Bool) : parens (Spelling.gapBeside plain) = [] := by
    rcases Spelling.gapBeside_cases plain with hgap | hgap <;> rw [hgap] <;> rfl
  obtain ⟨hopen, hclose⟩ := Parser.paren_notMem_keyword operator
  rw [Spelling.between_keyword, Groups.parens_append, Groups.parens_append, Groups.parens_append,
    Groups.parens_append, hgap, hgap, Groups.parens_eq_nil hopen hclose, List.append_nil,
    List.nil_append, List.nil_append]

/-! A tree that prints no group -/

theorem spelled_eq_flat {tree : Expr} (h : tree.groups = 0) (start : Nat) :
    tree.spelled = tree.flat start := by
  induction tree with
  | named _ => rfl
  | or _ _ _ _ | and _ _ _ _ => simp [groups] at h
  | not inner ih =>
      rw [groups] at h
      split at h
      · simp at h
      · next harray => rw [spelled, flat, if_neg harray, if_neg harray, ih h]
  | arrayOf inner ih => rw [spelled, flat, ih h]

theorem groupless_spelled {defined : String → Bool} {tree : Expr} (h : ReadNames defined tree)
    (hgroups : tree.groups = 0) : Groupless tree.spelled := by
  induction tree with
  | named name =>
      have hname := Parser.readNames_named.mp h
      have hparens : parens (named name).spelled = parens name.toList := by
        rw [spelled, normalChars, Spelling.spellOut_of_signFree hname.signFree,
          ← Groups.parens_inked, Spelling.inked_weigh, Groups.parens_inked]
      exact (Groups.groupless_congr hparens).mpr hname.groupless
  | or _ _ _ _ | and _ _ _ _ => simp [groups] at hgroups
  | not inner ih =>
      rw [groups] at hgroups
      split at hgroups
      · simp at hgroups
      · next harray =>
          rw [spelled, if_neg harray]
          exact (Groups.groupless_congr (parens_between .not [] _)).mpr (ih h.not hgroups)
  | arrayOf inner ih =>
      have hparens : parens (arrayOf inner).spelled = parens inner.spelled :=
        (parens_between .array _ []).trans (List.append_nil _)
      exact (Groups.groupless_congr hparens).mpr (ih h.arrayOf hgroups)

/-- The groups that are taken out of a printed text are the printed ones. -/
theorem takeOut_spelled {defined : String → Bool} {tree : Expr} (h : ReadNames defined tree)
    (hparens : tree.ParenFree ∨ tree.groups = 0) :
    Groups.takeOut (parseFlat defined) [] (trim tree.spelled) =
      (tree.takenOut defined [], trim (tree.flat 0)) := by
  rcases hparens with hnames | hgroups
  · have hclears := clears_spelled h hnames [] [] [] (by simp)
    rw [List.nil_append, List.append_nil, List.nil_append, List.append_nil] at hclears
    have hflat : Groupless (trim (tree.flat 0)) := Groups.groupless_of_notMem fun hopen =>
      (paren_notMem_flat h hnames 0).1 ((trim_sublist _).subset hopen)
    rw [hclears]
    exact Groups.takeOut_of_groupless _ _ hflat
  · have htaken : tree.takenOut defined [] = [] := by
      rw [← List.length_eq_zero_iff, length_takenOut, hgroups]
      rfl
    rw [Groups.takeOut_of_groupless _ _
      ((groupless_spelled h hgroups).of_isInfix (Parser.trim_isInfix _)), htaken,
      spelled_eq_flat hgroups 0]

/-- A printed text is read back as its tree if and only if the tree is legible. -/
theorem parse_render_iff {defined : String → Bool} (hnames : ArrayNamed defined) {tree : Expr}
    (h : ReadNames defined tree) (hparens : tree.ParenFree ∨ tree.groups = 0) :
    Parser.parse defined (normalize tree.render) = tree ↔ tree.Legible 0 tree.groups := by
  have hlettered : Lettered (tree.takenOut defined []) :=
    lettered_takenOut tree fun name hname => absurd hname (by simp)
  have hread := parseFlat_flat_iff hnames h List.prefix_rfl hlettered
  rw [length_takenOut, List.length_nil, Nat.zero_add] at hread
  rw [← hread, Parser.parse, Parser.parseChars, Spelling.toList_normalize, normalChars_render h,
    takeOut_spelled h hparens]
  simp only [parseFlat, trim_trim]

end Expr

namespace Registry

variable {σ : Type}

/-- A registry that has the built-in names and no others. -/
structure Pristine (registry : Registry σ) : Prop where
  reachable : ∃ options state, options.builtins = true ∧ ReachableFrom options state registry
  names : ∀ name, registry.contains name = true → name ∈ builtinNames

namespace Pristine

variable {registry : Registry σ}

theorem contains_iff (h : registry.Pristine) (name : String) :
    registry.contains name = true ↔ name ∈ builtinNames := by
  obtain ⟨options, state, hbuiltins, hreach⟩ := h.reachable
  refine ⟨h.names name, fun hname => ?_⟩
  exact hreach.contains_of_new ((contains_new_iff options state name).mpr ⟨hbuiltins, hname⟩)

theorem arrayNamed (h : registry.Pristine) : ArrayNamed registry.contains := by
  have hplain : ∀ name ∈ builtinNames, Text.isPlainWord name = true := by decide
  refine ⟨fun name hname => hplain name (h.names name hname), fun operator => ?_⟩
  rw [h.contains_iff]
  cases operator <;> decide

theorem compile (h : registry.Pristine) (source : String) :
    (registry.compile source).2.Pristine := by
  obtain ⟨options, state, hbuiltins, hreach⟩ := h.reachable
  exact ⟨⟨options, state, hbuiltins, hreach.compile source⟩, h.names⟩

/-- A text is read by its normal spelling, whether it is a name or not. -/
theorem tree_compile (h : registry.Pristine) (source : String) :
    (registry.compile source).1.tree = Parser.parse registry.contains (normalize source) := by
  obtain ⟨options, state, hbuiltins, hreach⟩ := h.reachable
  have hgroupless : GrouplessNames registry := fun name hname =>
    Groups.groupless_of_notMem
      (Parser.notMem_of_isPlainWord (h.arrayNamed.plain name hname) (by decide))
  have hfaithful : Faithful registry := hreach.faithful hgroupless fun name _ hname =>
    (contains_new_iff options state name).mpr ⟨hbuiltins, h.names name hname⟩
  rw [hfaithful.tree_compile hgroupless, Cache.meaning]
  split
  · next hdefined =>
      have hplain := h.arrayNamed.plain source hdefined
      rw [Spelling.normalize_of_isPlainWord hplain,
        Parser.parse_of_defined hdefined (hgroupless source hdefined)
          (Parser.trimmed_of_isPlainWord hplain)]
  · rfl

end Pristine

/-- The tree of a text comes back from its printed text if and only if it is legible, if
none of its names has a parenthesis or it prints no group. -/
theorem compile_render_iff {registry : Registry σ} (h : registry.Pristine) {source : String}
    {tree : Expr} (htree : (registry.compile source).1.tree = tree)
    (hparens : tree.ParenFree ∨ tree.groups = 0) :
    ((registry.compile source).2.compile tree.render).1.tree = tree ↔
      tree.Legible 0 tree.groups := by
  have hnames : ReadNames registry.contains tree := by
    rw [← htree, h.tree_compile]
    exact Parser.readNames_parse registry.contains source
  rw [(h.compile source).tree_compile]
  exact Expr.parse_render_iff h.arrayNamed hnames hparens

theorem pristine_new (state : σ) : (new .standard state).Pristine :=
  ⟨⟨.standard, state, rfl, .refl⟩, fun name hname => ((contains_new_iff _ state name).mp hname).2⟩

/-- A negated array of negations, from signs, is legible and comes back. -/
theorem compile_render_not_arrayOf :
    let tree : Expr := .not (.arrayOf (.not (.named "int")))
    ((new .standard ()).compile "!((!int)[])").1.tree = tree ∧ tree.Legible 0 tree.groups ∧
      (((new .standard ()).compile "!((!int)[])").2.compile "not (not int array)").1.tree =
        tree := by
  have htree : ((new .standard ()).compile "!((!int)[])").1.tree =
      .not (.arrayOf (.not (.named "int"))) := by decide +kernel
  have hback := compile_render_iff (pristine_new ()) htree (Or.inl (by
    rw [Expr.ParenFree]
    decide))
  have hread : (((new .standard ()).compile "!((!int)[])").2.compile
      (Expr.not (.arrayOf (.not (.named "int")))).render).1.tree =
      .not (.arrayOf (.not (.named "int"))) := by decide +kernel
  exact ⟨htree, hback.mp hread, hread⟩

/-- The name `array` behind `not`, from a group, is printed without the group and read as
an array of nothing. -/
theorem compile_render_not_array :
    ((new .standard ()).compile "not (array)").1.tree = .not (.named "array") ∧
      (Expr.not (.named "array")).render = "not array" ∧
      (((new .standard ()).compile "not (array)").2.compile "not array").1.tree =
        .arrayOf (.not (.named "")) := by
  decide +kernel

end Registry

end Switchboard
