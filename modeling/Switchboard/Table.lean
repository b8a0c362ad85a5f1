/-!
Tables: entries under text keys, in the order in which their keys were first
written. Writing a key again keeps its place and replaces its entry, so a table
built by `insert` alone never repeats a key; `Table.Distinct` names that
invariant. The lemmas say what one write does to every look-up.
-/

namespace Switchboard

/-- Entries under text keys, oldest key first. -/
abbrev Table (α : Type) : Type := List (String × α)

namespace Table

variable {α β : Type}

/-- The entry under a key. -/
def get? (key : String) : Table α → Option α
  | [] => none
  | (k, entry) :: rest => if k = key then some entry else get? key rest

/-- Whether a key has an entry. -/
def contains (key : String) (table : Table α) : Bool :=
  (get? key table).isSome

/-- Write an entry: in the place of the key if it is known, else at the end. -/
def insert (key : String) (entry : α) : Table α → Table α
  | [] => [(key, entry)]
  | (k, old) :: rest => if k = key then (k, entry) :: rest else (k, old) :: insert key entry rest

/-- Write several entries, one after the other. -/
def insertAll (entries : List (String × α)) (table : Table α) : Table α :=
  entries.foldl (fun table (key, entry) => insert key entry table) table

/-- A table with the given entries: a repeated key keeps its first place and its
last entry. -/
def ofEntries (entries : List (String × α)) : Table α :=
  insertAll entries []

/-- The keys in order. -/
def keys (table : Table α) : List String :=
  table.map Prod.fst

/-- No key is written twice. -/
def Distinct (table : Table α) : Prop :=
  table.keys.Nodup

/-- An entry is smaller than the table that it stands in. -/
theorem sizeOf_entry_lt [SizeOf α] {field : String × α} {table : Table α} (h : field ∈ table) :
    sizeOf field.2 < sizeOf table := by
  have hfield := List.sizeOf_lt_of_mem h
  obtain ⟨key, entry⟩ := field
  rw [Prod.mk.sizeOf_spec] at hfield
  change sizeOf entry < sizeOf table
  omega

theorem get?_insert (key other : String) (entry : α) (table : Table α) :
    get? other (insert key entry table) =
      if key = other then some entry else get? other table := by
  induction table with
  | nil => simp [insert, get?]
  | cons head rest ih =>
      obtain ⟨k, old⟩ := head
      by_cases hk : k = key
      · subst hk
        by_cases ho : k = other <;> simp [insert, get?, ho]
      · by_cases ho : k = other
        · subst ho
          simp [insert, get?, hk, Ne.symm hk]
        · simp [insert, get?, hk, ho, ih]

theorem get?_insert_self (key : String) (entry : α) (table : Table α) :
    get? key (insert key entry table) = some entry := by
  simp [get?_insert]

theorem get?_insert_of_ne {key other : String} (h : key ≠ other) (entry : α) (table : Table α) :
    get? other (insert key entry table) = get? other table := by
  simp [get?_insert, h]

theorem get?_eq_none_iff (key : String) (table : Table α) :
    get? key table = none ↔ key ∉ table.keys := by
  induction table with
  | nil => simp [get?, keys]
  | cons head rest ih =>
      obtain ⟨k, old⟩ := head
      by_cases hk : k = key
      · simp [get?, keys, hk]
      · simp only [get?, hk, if_false, ih, keys, List.map_cons, List.mem_cons, not_or]
        exact ⟨fun h => ⟨Ne.symm hk, h⟩, fun h => h.2⟩

/-- Writing a key adds it at the end unless it is known. -/
theorem keys_insert (key : String) (entry : α) (table : Table α) :
    (insert key entry table).keys =
      if key ∈ table.keys then table.keys else table.keys ++ [key] := by
  induction table with
  | nil => simp [insert, keys]
  | cons head rest ih =>
      obtain ⟨k, old⟩ := head
      by_cases hk : k = key
      · simp [insert, keys, hk]
      · have ih' : (insert key entry rest).map Prod.fst =
            if key ∈ rest.map Prod.fst then rest.map Prod.fst else rest.map Prod.fst ++ [key] := ih
        simp only [insert, hk, if_false, keys, List.map_cons, List.mem_cons, Ne.symm hk,
          false_or, ih']
        split <;> simp

theorem distinct_insert (key : String) (entry : α) {table : Table α} (h : table.Distinct) :
    (insert key entry table).Distinct := by
  unfold Distinct
  rw [keys_insert]
  split
  · exact h
  · next notMem =>
      exact List.nodup_append.mpr ⟨h, by simp, by
        intro a ha b hb
        simp only [List.mem_singleton] at hb
        subst hb
        intro hab
        exact notMem (hab ▸ ha)⟩

/-- Writing several entries adds the new keys at the end, in their order. -/
theorem keys_insertAll {entries : Table α} (h : entries.Distinct) (table : Table α) :
    (insertAll entries table).keys =
      table.keys ++ entries.keys.filter (fun key => !table.keys.contains key) := by
  induction entries generalizing table with
  | nil => simp [insertAll, keys]
  | cons head rest ih =>
      obtain ⟨key, entry⟩ := head
      obtain ⟨hfresh, hrest⟩ : key ∉ keys rest ∧ Distinct rest := List.nodup_cons.mp h
      have hstep : insertAll ((key, entry) :: rest) table =
          insertAll rest (insert key entry table) := rfl
      have hkeys : Table.keys ((key, entry) :: rest) = key :: keys rest := rfl
      rw [hstep, ih hrest, keys_insert, hkeys]
      by_cases hknown : key ∈ table.keys
      · simp [hknown]
      · have hothers : (keys rest).filter (fun other => !(table.keys ++ [key]).contains other) =
            (keys rest).filter (fun other => !table.keys.contains other) := by
          apply List.filter_congr
          intro other hother
          have hne : other ≠ key := fun heq => hfresh (heq ▸ hother)
          simp [hne]
        rw [if_neg hknown, hothers, List.append_assoc]
        simp [hknown]

/-- A look-up after several entries have been written finds the new entry, if there is one. -/
theorem get?_insertAll {entries : Table α} (h : entries.Distinct) (table : Table α)
    (key : String) : get? key (insertAll entries table) = (get? key entries).or (get? key table) := by
  induction entries generalizing table with
  | nil => simp [insertAll, get?]
  | cons head rest ih =>
      obtain ⟨k, entry⟩ := head
      obtain ⟨hfresh, hrest⟩ : k ∉ keys rest ∧ Distinct rest := List.nodup_cons.mp h
      have hstep : insertAll ((k, entry) :: rest) table = insertAll rest (insert k entry table) := rfl
      rw [hstep, ih hrest, get?_insert, get?]
      by_cases hk : k = key
      · have hnone : get? key rest = none := (get?_eq_none_iff key rest).mpr (hk ▸ hfresh)
        simp [hk, hnone]
      · simp [hk]

end Table

end Switchboard
