import Switchboard.Proofs.Registry.Agreement
import Switchboard.Proofs.Value.Equality

/-!
Values that agree. Two values agree if they are the same value, if they are equal, or if they
are objects whose entries agree, key by key and in any order. Equality alone is not enough here:
a default goes into a match as it is, and a default that is NaN, or holds one, does not equal
itself. No built-in condition tells values apart that agree. A relation between values with this
property, and which passes from objects to their entries and back, is a congruence; agreement is
one, and so is equality.
-/

namespace Switchboard

variable {α β : Type}

/-- Related options are both empty, or have related contents. -/
theorem exists_of_optionRel {rel : α → β → Prop} {left : Option α} {right : Option β}
    (h : Option.Rel rel left right) : (left = none ∧ right = none) ∨
      ∃ x y, left = some x ∧ right = some y ∧ rel x y := by
  cases h with
  | none => exact Or.inl ⟨rfl, rfl⟩
  | some h => exact Or.inr ⟨_, _, rfl, rfl, h⟩

theorem optionRel_imp {rel rel' : α → β → Prop} (himp : ∀ x y, rel x y → rel' x y)
    {left : Option α} {right : Option β} (h : Option.Rel rel left right) :
    Option.Rel rel' left right := by
  cases h with
  | none => exact .none
  | some h => exact .some (himp _ _ h)

namespace Table

variable {rel : α → β → Prop}

/-- Two tables with the same keys, in any order, and related entries. -/
structure Alike (rel : α → β → Prop) (left : Table α) (right : Table β) : Prop where
  distinct : left.Distinct
  length_eq : left.length = right.length
  entries : ∀ key, Option.Rel rel (get? key left) (get? key right)

theorem get?_of_mem {table : Table α} (h : table.Distinct) {key : String} {entry : α}
    (hmem : (key, entry) ∈ table) : get? key table = some entry := by
  induction table with
  | nil => cases hmem
  | cons head rest ih =>
      obtain ⟨k, old⟩ := head
      obtain ⟨hfresh, hrest⟩ : k ∉ keys rest ∧ Distinct rest := List.nodup_cons.mp h
      rw [get?]
      rcases List.mem_cons.mp hmem with heq | hmem
      · cases heq
        exact if_pos rfl
      · have hne : k ≠ key := fun heq =>
          hfresh (heq ▸ List.mem_map_of_mem (f := Prod.fst) hmem)
        rw [if_neg hne, ih hrest hmem]

theorem get?_of_perm {left right : Table α} (hdistinct : left.Distinct)
    (hperm : left.Perm right) (key : String) : get? key left = get? key right := by
  have hdistinct' : right.Distinct := (hperm.map Prod.fst).nodup hdistinct
  apply Option.ext
  intro entry
  constructor
  · intro hentry
    exact get?_of_mem hdistinct' (hperm.mem_iff.mp (Registry.mem_of_get? hentry))
  · intro hentry
    exact get?_of_mem hdistinct (hperm.mem_iff.mpr (Registry.mem_of_get? hentry))

theorem mem_keys_iff {table : Table α} {key : String} :
    key ∈ table.keys ↔ (get? key table).isSome = true := by
  rw [Option.isSome_iff_ne_none, Ne, get?_eq_none_iff, not_not]

theorem Alike.mem_keys_iff {left : Table α} {right : Table β} (h : Alike rel left right)
    (key : String) : key ∈ left.keys ↔ key ∈ right.keys := by
  rw [Table.mem_keys_iff, Table.mem_keys_iff]
  rcases exists_of_optionRel (h.entries key) with ⟨hleft, hright⟩ | ⟨_, _, hleft, hright, _⟩ <;>
    simp [hleft, hright]

/-- No key is written twice, so as many keys as there are in the other table are all of them. -/
theorem keys_perm_of_subset {left : Table α} {right : Table β} (hdistinct : left.Distinct)
    (hlength : left.length = right.length) (hsub : left.keys ⊆ right.keys) :
    left.keys.Perm right.keys := by
  refine (List.subperm_of_subset hdistinct hsub).perm_of_length_le ?_
  rw [keys, keys, List.length_map, List.length_map, hlength]

/-- To tell that tables of one length are alike, it is enough to look up the entries of one in the
other. -/
theorem alike_iff {left : Table α} {right : Table β} (hdistinct : left.Distinct) :
    Alike rel left right ↔ left.length = right.length ∧
      ∀ field ∈ left, ∃ other, get? field.1 right = some other ∧ rel field.2 other := by
  constructor
  · intro h
    refine ⟨h.length_eq, fun field hfield => ?_⟩
    have hleft := get?_of_mem hdistinct hfield
    rcases exists_of_optionRel (h.entries field.1) with
      ⟨hnone, _⟩ | ⟨_, other, hsome, hright, hrel⟩
    · rw [hnone] at hleft
      cases hleft
    · rw [hsome] at hleft
      cases hleft
      exact ⟨other, hright, hrel⟩
  · rintro ⟨hlength, hentries⟩
    have hsub : left.keys ⊆ right.keys := by
      intro key hkey
      obtain ⟨entry, hentry, rfl⟩ := List.mem_map.mp hkey
      obtain ⟨other, hother, _⟩ := hentries entry hentry
      rw [mem_keys_iff, hother]
      rfl
    have hperm := keys_perm_of_subset hdistinct hlength hsub
    refine ⟨hdistinct, hlength, fun key => ?_⟩
    cases hleft : get? key left with
    | some entry =>
        obtain ⟨other, hother, hrel⟩ := hentries _ (Registry.mem_of_get? hleft)
        rw [hother]
        exact .some hrel
    | none =>
        rw [get?_eq_none_iff, hperm.mem_iff, ← get?_eq_none_iff] at hleft
        rw [hleft]
        exact .none

theorem distinct_insertAll (entries : List (String × α)) {table : Table α} (h : table.Distinct) :
    (insertAll entries table).Distinct := by
  induction entries generalizing table with
  | nil => exact h
  | cons head rest ih => exact ih (distinct_insert head.1 head.2 h)

/-- Tables that are alike stay so when like entries are written, under keys in the same
order. -/
theorem Alike.insertAll {found existing : Table α} {found' existing' : Table β}
    (hfound : Alike rel found found') (hkeys : found.keys = found'.keys)
    (h : Alike rel existing existing') :
    Alike rel (insertAll found existing) (insertAll found' existing') := by
  have hfound' : found'.Distinct := by
    rw [Distinct, ← hkeys]
    exact hfound.distinct
  refine ⟨distinct_insertAll found h.distinct, ?_, fun key => ?_⟩
  · have hknown (key : String) : existing.keys.contains key = existing'.keys.contains key := by
      rw [Bool.eq_iff_iff, List.contains_iff_mem, List.contains_iff_mem, h.mem_keys_iff]
    have hlength : existing.keys.length = existing'.keys.length := by
      rw [keys, keys, List.length_map, List.length_map, h.length_eq]
    have hall := congrArg List.length (keys_insertAll hfound.distinct existing)
    have hall' := congrArg List.length (keys_insertAll hfound' existing')
    simp only [List.length_append, hknown, hkeys, hlength] at hall hall'
    rw [← hall'] at hall
    simpa only [keys, List.length_map] using hall
  · rw [get?_insertAll hfound.distinct, get?_insertAll hfound']
    rcases exists_of_optionRel (hfound.entries key) with
      ⟨hleft, hright⟩ | ⟨_, _, hleft, hright, hentry⟩
    · rw [hleft, hright, Option.none_or, Option.none_or]
      exact h.entries key
    · rw [hleft, hright, Option.some_or, Option.some_or]
      exact .some hentry

/-- Entries that are listed under the same keys in the same order make tables that are alike. -/
theorem alike_of_forall₂ {left : Table α} {right : Table β} (hdistinct : left.Distinct)
    (h : List.Forall₂ (fun x y => x.1 = y.1 ∧ rel x.2 y.2) left right) :
    Alike rel left right ∧ left.keys = right.keys := by
  have hkeys : left.keys = right.keys := by
    induction h with
    | nil => rfl
    | cons hhead _ ih =>
        rw [keys, keys, List.map_cons, List.map_cons, hhead.1]
        exact congrArg _ (ih (List.nodup_cons.mp hdistinct).2)
  refine ⟨⟨hdistinct, h.length_eq, fun key => ?_⟩, hkeys⟩
  clear hkeys hdistinct
  induction h with
  | nil => exact .none
  | @cons x y _ _ hhead _ ih =>
      obtain ⟨hkey, hentry⟩ := hhead
      rw [get?, get?, ← hkey]
      split
      · exact .some hentry
      · exact ih

end Table

namespace Value

open Registry (isChar isNumeric isInt mem_of_get?)

/-- A relation that no built-in condition and no kind tells from the identity, and that objects
inherit from their entries, and hand on to them. -/
structure Congruence (rel : Value → Value → Prop) : Prop where
  undefined : rel .undefined .undefined
  kind_eq : ∀ {v w}, rel v w → v.kind = w.kind
  isChar_eq : ∀ {v w}, rel v w → isChar v = isChar w
  isNumeric_eq : ∀ {v w}, rel v w → isNumeric v = isNumeric w
  isInt_eq : ∀ {v w}, rel v w → isInt v = isInt w
  items : ∀ {xs ys}, rel (.array xs) (.array ys) → List.Forall₂ rel xs ys
  fields : ∀ {f g}, rel (.object f) (.object g) → Table.Alike rel f g
  object : ∀ {f g}, Table.Alike rel f g → rel (.object f) (.object g)

theorem isUndefined_iff {v : Value} : v.isUndefined = true ↔ v.kind = .undefined := by
  cases v <;> simp [isUndefined, kind]

theorem exists_of_kind_array {v : Value} (h : v.kind = .array) : ∃ items, v = .array items := by
  cases v <;> first | exact ⟨_, rfl⟩ | cases h

theorem asArray?_of_ne {v : Value} (h : v.kind ≠ .array) : v.asArray? = none := by
  cases v <;> first | rfl | exact absurd rfl h

theorem exists_of_kind_object {v : Value} (h : v.kind = .object) :
    ∃ fields, v = .object fields := by
  cases v <;> first | exact ⟨_, rfl⟩ | cases h

theorem asObject?_of_ne {v : Value} (h : v.kind ≠ .object) : v.asObject? = none := by
  cases v <;> first | rfl | exact absurd rfl h

section

variable {rel : Value → Value → Prop} (hrel : Congruence rel) {v w : Value}

include hrel

theorem Congruence.isUndefined_eq (h : rel v w) : v.isUndefined = w.isUndefined := by
  rw [Bool.eq_iff_iff, isUndefined_iff, isUndefined_iff, hrel.kind_eq h]

theorem Congruence.isUnset_eq (h : rel v w) : v.isUnset = w.isUnset :=
  isUnset_of_kind_eq (hrel.kind_eq h)

/-- Related values are both arrays, with items that are related one by one, or neither. -/
theorem Congruence.asArray? (h : rel v w) :
    Option.Rel (List.Forall₂ rel) v.asArray? w.asArray? := by
  have hkind := hrel.kind_eq h
  by_cases harray : v.kind = .array
  · obtain ⟨xs, rfl⟩ := exists_of_kind_array harray
    obtain ⟨ys, rfl⟩ := exists_of_kind_array (hkind.symm.trans harray)
    exact .some (hrel.items h)
  · rw [asArray?_of_ne harray, asArray?_of_ne (hkind ▸ harray)]
    exact .none

/-- Related values are both objects, with entries that are related, or neither. -/
theorem Congruence.asObject? (h : rel v w) :
    Option.Rel (Table.Alike rel) v.asObject? w.asObject? := by
  have hkind := hrel.kind_eq h
  by_cases hobject : v.kind = .object
  · obtain ⟨f, rfl⟩ := exists_of_kind_object hobject
    obtain ⟨g, rfl⟩ := exists_of_kind_object (hkind.symm.trans hobject)
    exact .some (hrel.fields h)
  · rw [asObject?_of_ne hobject, asObject?_of_ne (hkind ▸ hobject)]
    exact .none

end

/-- A value and an equal one. -/
def Equals (v w : Value) : Prop :=
  v.Distinct ∧ v.equal w = true

/-- The same value, equal values, or objects whose entries agree. -/
inductive Agrees : Value → Value → Prop
  | same {v : Value} (h : v.Distinct) : Agrees v v
  | equal {v w : Value} (h : v.Equals w) : Agrees v w
  | object {f g : Table Value} (hdistinct : Table.Distinct f) (hlength : f.length = g.length)
      (hentries : ∀ key, Option.Rel Agrees (Table.get? key f) (Table.get? key g)) :
      Agrees (.object f) (.object g)

theorem distinctItems_iff {items : List Value} :
    DistinctItems items ↔ ∀ item ∈ items, item.Distinct := by
  induction items with
  | nil => simp [DistinctItems]
  | cons item rest ih => rw [DistinctItems, ih, List.forall_mem_cons]

theorem distinctFields_iff {fields : Table Value} :
    DistinctFields fields ↔ ∀ field ∈ fields, field.2.Distinct := by
  induction fields with
  | nil => simp [DistinctFields]
  | cons field rest ih =>
      obtain ⟨key, entry⟩ := field
      rw [DistinctFields, ih, List.forall_mem_cons]

theorem distinct_of_get? {fields : Table Value} (h : (object fields).Distinct) {key : String}
    {entry : Value} (hentry : Table.get? key fields = some entry) : entry.Distinct := by
  rw [Distinct] at h
  exact distinctFields_iff.mp h.2 _ (mem_of_get? hentry)

theorem Equals.fields {f g : Table Value} (h : Equals (.object f) (.object g)) :
    Table.Alike Equals f g := by
  obtain ⟨hdistinct, hequal⟩ := h
  rw [Distinct, distinctFields_iff] at hdistinct
  rw [Value.equal, Bool.and_eq_true, beq_iff_eq, equalFields_iff] at hequal
  refine (Table.alike_iff hdistinct.1).mpr ⟨hequal.1, fun field hfield => ?_⟩
  obtain ⟨other, hother, hsame⟩ := hequal.2 field hfield
  exact ⟨other, hother, hdistinct.2 field hfield, hsame⟩

theorem Equals.items {xs ys : List Value} (h : Equals (.array xs) (.array ys)) :
    List.Forall₂ Equals xs ys := by
  obtain ⟨hdistinct, hequal⟩ := h
  rw [Distinct, distinctItems_iff] at hdistinct
  rw [Value.equal, equalItems_iff] at hequal
  exact (List.forall₂_and_left _ _).mpr ⟨hdistinct, hequal⟩

theorem equals_congruence : Congruence Equals where
  undefined := ⟨trivial, rfl⟩
  kind_eq h := kind_of_equal h.2
  isChar_eq h := isChar_of_equal h.2
  isNumeric_eq h := isNumeric_of_equal h.2
  isInt_eq h := isInt_of_equal h.2
  items := Equals.items
  fields := Equals.fields
  object {f g} h := by
    obtain ⟨hlength, hentries⟩ := (Table.alike_iff h.distinct).mp h
    constructor
    · rw [Distinct, distinctFields_iff]
      refine ⟨h.distinct, fun field hfield => ?_⟩
      obtain ⟨_, _, hequals⟩ := hentries field hfield
      exact hequals.1
    · rw [Value.equal, Bool.and_eq_true, beq_iff_eq, equalFields_iff]
      refine ⟨hlength, fun field hfield => ?_⟩
      obtain ⟨other, hother, hequals⟩ := hentries field hfield
      exact ⟨other, hother, hequals.2⟩

theorem alike_self {rel : Value → Value → Prop} (hsame : ∀ {v}, v.Distinct → rel v v)
    {fields : Table Value} (h : (object fields).Distinct) : Table.Alike rel fields fields := by
  have hkeys : Table.Distinct fields := by
    rw [Distinct] at h
    exact h.1
  refine ⟨hkeys, rfl, fun key => ?_⟩
  cases hentry : Table.get? key fields with
  | none => exact .none
  | some entry => exact .some (hsame (distinct_of_get? h hentry))

theorem agrees_congruence : Congruence Agrees where
  undefined := .equal equals_congruence.undefined
  kind_eq h := by
    cases h with
    | same => rfl
    | equal h => exact equals_congruence.kind_eq h
    | object => rfl
  isChar_eq h := by
    cases h with
    | same => rfl
    | equal h => exact equals_congruence.isChar_eq h
    | object => rfl
  isNumeric_eq h := by
    cases h with
    | same => rfl
    | equal h => exact equals_congruence.isNumeric_eq h
    | object => rfl
  isInt_eq h := by
    cases h with
    | same => rfl
    | equal h => exact equals_congruence.isInt_eq h
    | object => rfl
  items h := by
    cases h with
    | same h =>
        rw [Distinct, distinctItems_iff] at h
        exact List.forall₂_same.mpr fun item hitem => .same (h item hitem)
    | equal h => exact h.items.imp fun _ _ => .equal
  fields h := by
    cases h with
    | same h => exact alike_self .same h
    | equal h =>
        obtain ⟨hdistinct, hlength, hentries⟩ := h.fields
        exact ⟨hdistinct, hlength, fun key => optionRel_imp (fun _ _ => .equal) (hentries key)⟩
    | object hdistinct hlength hentries => exact ⟨hdistinct, hlength, hentries⟩
  object h := .object h.distinct h.length_eq h.entries

/-- Values that differ in nothing but the order of keys, at any depth. -/
inductive Reordered : Value → Value → Prop
  | same {v : Value} (h : v.Distinct) : Reordered v v
  | array {xs ys : List Value} (h : List.Forall₂ Reordered xs ys) :
      Reordered (.array xs) (.array ys)
  | object {f g : Table Value} (hdistinct : Table.Distinct f) (hlength : f.length = g.length)
      (hentries : ∀ key, Option.Rel Reordered (Table.get? key f) (Table.get? key g)) :
      Reordered (.object f) (.object g)

theorem Reordered.kind_eq {v w : Value} (h : v.Reordered w) : v.kind = w.kind := by
  cases h <;> rfl

mutual

/-- An object is written without its entries, so the order of its keys is in no text. -/
theorem Reordered.plainText_eq (v w : Value) (h : v.Reordered w) : v.plainText = w.plainText := by
  match v, w, h with
  | _, _, .same _ => rfl
  | .array xs, .array ys, .array h =>
      exact congrArg (List.intercalate [',']) (Reordered.plainItems_eq xs ys h)
  | .object _, .object _, .object .. => rfl

theorem Reordered.plainItems_eq (xs ys : List Value) (h : List.Forall₂ Reordered xs ys) :
    plainItems xs = plainItems ys := by
  match xs, ys, h with
  | [], [], .nil => rfl
  | x :: xs, y :: ys, .cons hxy h =>
      rw [plainItems, plainItems, isUnset_of_kind_eq hxy.kind_eq, Reordered.plainText_eq x y hxy,
        Reordered.plainItems_eq xs ys h]

end

theorem reordered_congruence : Congruence Reordered where
  undefined := .same trivial
  kind_eq := Reordered.kind_eq
  isChar_eq h := by cases h <;> rfl
  isNumeric_eq {v w} h := by
    have htext := Reordered.plainText_eq v w h
    cases h with
    | same => rfl
    | array => rw [isNumeric, isNumeric, htext] <;> simp
    | object => rfl
  isInt_eq h := by cases h <;> rfl
  items h := by
    cases h with
    | same h =>
        rw [Distinct, distinctItems_iff] at h
        exact List.forall₂_same.mpr fun item hitem => .same (h item hitem)
    | array h => exact h
  fields h := by
    cases h with
    | same h => exact alike_self .same h
    | object hdistinct hlength hentries => exact ⟨hdistinct, hlength, hentries⟩
  object h := .object h.distinct h.length_eq h.entries

theorem reordered_of_perm {f g : Table Value} (h : (object f).Distinct) (hperm : f.Perm g) :
    (object f).Reordered (object g) := by
  have hself := alike_self Reordered.same h
  refine .object hself.distinct hperm.length_eq fun key => ?_
  rw [← Table.get?_of_perm hself.distinct hperm]
  exact hself.entries key

end Value

end Switchboard
