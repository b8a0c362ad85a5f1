import Switchboard.Proofs.Value.Agreement

/-!
Equality of values as a relation. Objects are compared one way round: each entry of the first has
to have an equal entry in the second. As no object repeats a key, and both have equally many, this
says as much as the other way round, so equality is symmetric and transitive. It is not
reflexive, and NaN is the only reason: a value equals itself unless a NaN is somewhere in it. The
order of keys plays no part at all.
-/

namespace Switchboard

variable {α β γ : Type}

theorem forall₂_comp {rel : α → β → Prop} {rel' : β → γ → Prop} {along : α → γ → Prop}
    {xs : List α} {ys : List β} {zs : List γ} (h : List.Forall₂ rel xs ys)
    (h' : List.Forall₂ rel' ys zs) (halong : ∀ x y z, rel x y → rel' y z → along x z) :
    List.Forall₂ along xs zs := by
  induction h generalizing zs with
  | nil =>
      cases h'
      exact .nil
  | cons hxy _ ih =>
      cases h' with
      | cons hyz h' => exact .cons (halong _ _ _ hxy hyz) (ih h')

namespace Table

theorem Alike.distinct_right {rel : α → β → Prop} {left : Table α} {right : Table β}
    (h : Alike rel left right) : right.Distinct :=
  (keys_perm_of_subset h.distinct h.length_eq fun key => (h.mem_keys_iff key).mp).nodup h.distinct

/-- Tables without repetitions are alike if all look-ups are. -/
theorem alike_of_entries {rel : α → β → Prop} {left : Table α} {right : Table β}
    (hleft : left.Distinct) (hright : right.Distinct)
    (h : ∀ key, Option.Rel rel (get? key left) (get? key right)) : Alike rel left right := by
  have hmem (key : String) : key ∈ left.keys ↔ key ∈ right.keys := by
    rw [mem_keys_iff, mem_keys_iff]
    rcases exists_of_optionRel (h key) with ⟨hnone, hnone'⟩ | ⟨_, _, hsome, hsome', _⟩
    · simp [hnone, hnone']
    · simp [hsome, hsome']
  have hperm : left.keys.Perm right.keys := (List.perm_ext_iff_of_nodup hleft hright).mpr hmem
  have hlength := hperm.length_eq
  rw [keys, keys, List.length_map, List.length_map] at hlength
  exact ⟨hleft, hlength, h⟩

/-- Tables are alike the other way round if each of the entries of one is related back. -/
theorem Alike.flip {rel : α → β → Prop} {back : β → α → Prop} {left : Table α} {right : Table β}
    (h : Alike rel left right) (hback : ∀ field ∈ left, ∀ y, rel field.2 y → back y field.2) :
    Alike back right left := by
  refine ⟨h.distinct_right, h.length_eq.symm, fun key => ?_⟩
  rcases exists_of_optionRel (h.entries key) with ⟨hleft, hright⟩ | ⟨x, y, hleft, hright, hxy⟩
  · rw [hleft, hright]
    exact .none
  · rw [hleft, hright]
    exact .some (hback _ (Registry.mem_of_get? hleft) y hxy)

theorem Alike.trans {rel : α → β → Prop} {rel' : β → γ → Prop} {along : α → γ → Prop}
    {left : Table α} {middle : Table β} {right : Table γ} (h : Alike rel left middle)
    (h' : Alike rel' middle right)
    (halong : ∀ field ∈ left, ∀ y z, rel field.2 y → rel' y z → along field.2 z) :
    Alike along left right := by
  refine ⟨h.distinct, h.length_eq.trans h'.length_eq, fun key => ?_⟩
  rcases exists_of_optionRel (h.entries key) with ⟨hleft, hnone⟩ | ⟨x, y, hleft, hmiddle, hxy⟩ <;>
    rcases exists_of_optionRel (h'.entries key) with ⟨hnone', hright⟩ | ⟨y', z, hmiddle', hright, hyz⟩
  · rw [hleft, hright]
    exact .none
  · rw [hnone] at hmiddle'
    cases hmiddle'
  · rw [hnone'] at hmiddle
    cases hmiddle
  · rw [hmiddle] at hmiddle'
    cases hmiddle'
    rw [hleft, hright]
    exact .some (halong _ (Registry.mem_of_get? hleft) y z hxy hyz)

/-- A table that was made by writing entries repeats no key. -/
theorem distinct_ofEntries (entries : List (String × α)) : (ofEntries entries).Distinct :=
  distinct_insertAll entries List.nodup_nil

/-- Of several entries under one key, the last that was written is found. -/
theorem get?_ofEntries (entries : List (String × α)) (key : String) :
    get? key (ofEntries entries) = get? key entries.reverse := by
  induction entries using List.reverseRecOn with
  | nil => rfl
  | append_singleton entries last ih =>
      obtain ⟨k, entry⟩ := last
      have hlast : ofEntries (entries ++ [(k, entry)]) = insert k entry (ofEntries entries) :=
        List.foldl_append
      rw [hlast, get?_insert, ih, List.reverse_append, List.reverse_singleton, List.singleton_append,
        get?]

end Table

namespace Value

/-- A value that stands in another, at any depth. -/
inductive Occurs (part : Value) : Value → Prop
  | here : Occurs part part
  | item {items : List Value} {item : Value} (hitem : item ∈ items) (h : Occurs part item) :
      Occurs part (array items)
  | entry {fields : Table Value} {field : String × Value} (hfield : field ∈ fields)
      (h : Occurs part field.2) : Occurs part (object fields)

/-- No NaN stands in the value, at any depth. -/
def NaNFree (v : Value) : Prop :=
  ∀ n, Occurs (number n) v → n.isNaN = false

theorem distinct_of_leaf {v : Value} (harray : v.kind ≠ .array) (hobject : v.kind ≠ .object) :
    v.Distinct := by
  cases v <;> first | exact trivial | exact absurd rfl harray | exact absurd rfl hobject

theorem equal_comm_of_leaf {v : Value} (harray : v.kind ≠ .array) (hobject : v.kind ≠ .object)
    (w : Value) : v.equal w = w.equal v := by
  cases v with
  | array => exact absurd rfl harray
  | object => exact absurd rfl hobject
  | number m => cases w <;> first | rfl | exact Number.equal_comm _ _
  | _ => cases w <;> first | rfl | exact BEq.comm

theorem equal_trans_of_leaf {u v w : Value} (harray : u.kind ≠ .array) (hobject : u.kind ≠ .object)
    (huv : u.equal v = true) (hvw : v.equal w = true) : u.equal w = true := by
  cases u with
  | array => exact absurd rfl harray
  | object => exact absurd rfl hobject
  | number m =>
      cases v <;> first | cases huv | skip
      cases w <;> first | cases hvw | exact Number.equal_trans huv hvw
  | function f =>
      cases v <;> first | cases huv | skip
      cases w <;> first | cases hvw | exact beq_iff_eq.mpr ((eq_of_beq huv).trans (eq_of_beq hvw))
  | undefined | null =>
      cases v <;> first | exact hvw | cases huv
  | boolean | string | regexp =>
      cases v <;> first | cases huv | skip
      cases eq_of_beq huv
      exact hvw

theorem equal_self_of_leaf {v : Value} (harray : v.kind ≠ .array) (hobject : v.kind ≠ .object) :
    v.equal v = true ↔ NaNFree v := by
  cases v with
  | array => exact absurd rfl harray
  | object => exact absurd rfl hobject
  | number m =>
      rw [equal, Number.equal_self, Bool.not_eq_true']
      exact ⟨fun h n hn => by cases hn; exact h, fun h => h m .here⟩
  | _ => exact iff_of_true (by simp [equal]) (fun n hn => by cases hn)

theorem equals_array {xs ys : List Value} (h : List.Forall₂ Equals xs ys) :
    Equals (array xs) (array ys) := by
  obtain ⟨hdistinct, hequal⟩ := (List.forall₂_and_left _ _).mp h
  exact ⟨distinctItems_iff.mpr hdistinct, equalItems_iff.mpr hequal⟩

theorem Equals.symm (v : Value) : ∀ {w : Value}, v.Equals w → w.Equals v := by
  induction v using induction with
  | leaf v harray hobject =>
      intro w h
      have hkind := kind_of_equal h.2
      exact ⟨distinct_of_leaf (hkind ▸ harray) (hkind ▸ hobject),
        (equal_comm_of_leaf harray hobject w).symm.trans h.2⟩
  | array xs ih =>
      intro w h
      obtain ⟨ys, rfl⟩ := exists_of_kind_array (kind_of_equal h.2).symm
      have hitems := (List.forall₂_and_left _ _).mpr ⟨ih, h.items⟩
      refine equals_array (hitems.imp ?_).flip
      intro x y ⟨hsymm, hxy⟩
      exact hsymm hxy
  | object f ih =>
      intro w h
      obtain ⟨g, rfl⟩ := exists_of_kind_object (kind_of_equal h.2).symm
      exact equals_congruence.object (h.fields.flip fun field hfield y => ih field hfield)

theorem Equals.trans (u : Value) : ∀ {v w : Value}, u.Equals v → v.Equals w → u.Equals w := by
  induction u using induction with
  | leaf u harray hobject =>
      intro v w huv hvw
      exact ⟨huv.1, equal_trans_of_leaf harray hobject huv.2 hvw.2⟩
  | array xs ih =>
      intro v w huv hvw
      obtain ⟨ys, rfl⟩ := exists_of_kind_array (kind_of_equal huv.2).symm
      obtain ⟨zs, rfl⟩ := exists_of_kind_array (kind_of_equal hvw.2).symm
      have hitems := (List.forall₂_and_left _ _).mpr ⟨ih, huv.items⟩
      exact equals_array (forall₂_comp hitems hvw.items fun _ _ _ ⟨htrans, hxy⟩ => htrans hxy)
  | object f ih =>
      intro v w huv hvw
      obtain ⟨g, rfl⟩ := exists_of_kind_object (kind_of_equal huv.2).symm
      obtain ⟨h, rfl⟩ := exists_of_kind_object (kind_of_equal hvw.2).symm
      exact equals_congruence.object
        (huv.fields.trans hvw.fields fun field hfield y z => ih field hfield)

theorem naNFree_array {items : List Value} :
    NaNFree (array items) ↔ ∀ item ∈ items, NaNFree item := by
  constructor
  · exact fun h item hitem n hn => h n (.item hitem hn)
  · intro h n hn
    cases hn with
    | item hitem hn => exact h _ hitem n hn

theorem naNFree_object {fields : Table Value} :
    NaNFree (object fields) ↔ ∀ field ∈ fields, NaNFree field.2 := by
  constructor
  · exact fun h field hfield n hn => h n (.entry hfield hn)
  · intro h n hn
    cases hn with
    | entry hfield hn => exact h _ hfield n hn

/-- A value equals itself if and only if there is no NaN in it. -/
theorem equal_self_iff (v : Value) : v.Distinct → (v.equal v = true ↔ NaNFree v) := by
  induction v using induction with
  | leaf v harray hobject => exact fun _ => equal_self_of_leaf harray hobject
  | array items ih =>
      intro h
      rw [Distinct, distinctItems_iff] at h
      rw [equal, equalItems_iff, List.forall₂_same, naNFree_array]
      exact forall₂_congr fun item hitem => ih item hitem (h item hitem)
  | object fields ih =>
      intro h
      rw [Distinct, distinctFields_iff] at h
      obtain ⟨hkeys, hentries⟩ := h
      rw [equal, beq_self_eq_true, Bool.true_and, equalFields_iff, naNFree_object]
      refine forall₂_congr fun field hfield => ?_
      rw [Table.get?_of_mem hkeys hfield, ← ih field hfield (hentries field hfield)]
      simp

/-- Objects are equal if they have the same keys, with equal entries. -/
theorem equal_object_iff {f g : Table Value} (hf : Table.Distinct f) (hg : Table.Distinct g) :
    (object f).equal (object g) = true ↔ ∀ key,
      Option.Rel (fun x y : Value => x.equal y = true) (Table.get? key f) (Table.get? key g) := by
  rw [equal, Bool.and_eq_true, beq_iff_eq, equalFields_iff]
  have halike : Table.Alike (fun x y : Value => x.equal y = true) f g ↔ _ := Table.alike_iff hf
  exact halike.symm.trans ⟨fun h => h.entries, Table.alike_of_entries hf hg⟩

/-- Objects made of listed entries are equal if the entries that were listed last under each key
are equal. -/
theorem equal_ofFields_iff (entries entries' : List (String × Value)) :
    (ofFields entries).equal (ofFields entries') = true ↔ ∀ key,
      Option.Rel (fun x y : Value => x.equal y = true) (Table.get? key entries.reverse)
        (Table.get? key entries'.reverse) := by
  rw [ofFields, ofFields,
    equal_object_iff (Table.distinct_ofEntries entries) (Table.distinct_ofEntries entries')]
  simp only [Table.get?_ofEntries]

/-- Equality of values is symmetric and transitive, and reflexive on the values without NaN. The
values repeat no key in an object, as none does that was made by writing fields. Objects are
equal if and only if they have the same keys with equal entries, so neither the order in which
keys were written nor the entries that were written over make a difference. -/
theorem equal_partialEquivalence {u v : Value} (hu : u.Distinct) (hv : v.Distinct) (w : Value) :
    u.equal v = v.equal u ∧
    (u.equal v = true → v.equal w = true → u.equal w = true) ∧
    (v.equal v = true ↔ NaNFree v) ∧
    (∀ f g, Table.Distinct f → Table.Distinct g → ((object f).equal (object g) = true ↔ ∀ key,
      Option.Rel (fun x y : Value => x.equal y = true) (Table.get? key f) (Table.get? key g))) ∧
    ∀ entries entries', (ofFields entries).equal (ofFields entries') = true ↔ ∀ key,
      Option.Rel (fun x y : Value => x.equal y = true) (Table.get? key entries.reverse)
        (Table.get? key entries'.reverse) := by
  refine ⟨?_, fun huv hvw => ?_, equal_self_iff v hv, fun f g => equal_object_iff,
    equal_ofFields_iff⟩
  · rw [Bool.eq_iff_iff]
    exact ⟨fun h => (Equals.symm u ⟨hu, h⟩).2, fun h => (Equals.symm v ⟨hv, h⟩).2⟩
  · exact (Equals.trans u ⟨hu, huv⟩ ⟨hv, hvw⟩).2

/-- Two objects with their keys in different orders and different zeros, and one with a NaN. -/
theorem equal_partialEquivalence_records :
    let u := object [("size", .number .zero), ("tags", .array [.string "a", .null])]
    let v := object [("tags", .array [.string "a", .null]), ("size", .number .negativeZero)]
    let w := object [("size", .array [.number .nan]), ("tags", .null)]
    u.equal v = true ∧ v.equal u = true ∧ u.equal u = true ∧ w.equal w = false := by
  intro u v w
  have hu : u.Distinct := by
    simp [u, Distinct, DistinctItems, DistinctFields, Table.Distinct, Table.keys]
  have hv : v.Distinct := by
    simp [v, Distinct, DistinctItems, DistinctFields, Table.Distinct, Table.keys]
  have hw : w.Distinct := by
    simp [w, Distinct, DistinctItems, DistinctFields, Table.Distinct, Table.keys]
  obtain ⟨hsymm, htrans, _⟩ := equal_partialEquivalence hu hv u
  obtain ⟨_, _, hself, _⟩ := equal_partialEquivalence hu hw w
  have huv : u.equal v = true := by decide
  have hvu := hsymm.symm.trans huv
  refine ⟨huv, hvu, htrans huv hvu, ?_⟩
  rw [Bool.eq_false_iff, Ne, hself]
  intro hfree
  have hnan := hfree .nan (.entry List.mem_cons_self (.item List.mem_cons_self .here))
  exact absurd hnan (by decide)

end Value

end Switchboard
