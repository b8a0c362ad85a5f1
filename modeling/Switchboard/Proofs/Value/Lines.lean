import Switchboard.Json.Reader
import Switchboard.Proofs.Value.Equivalence
import Switchboard.Value.Display

/-!
Line breaks in the literal form of a value. A quoted text holds none, whatever the text is, and
neither does the text of a number. The keys of objects are not quoted: the literal form of a
value that a JSON text stands for holds the line breaks of its keys, at every depth, and no
others.
-/

namespace Switchboard

namespace Text

/-- How many line breaks a text holds. -/
def lineBreaks (text : String) : Nat :=
  text.toList.count '\n'

@[simp]
theorem lineBreaks_append (first second : String) :
    lineBreaks (first ++ second) = lineBreaks first + lineBreaks second := by
  rw [lineBreaks, String.toList_append, List.count_append, lineBreaks, lineBreaks]

theorem lineBreaks_eq_zero_iff {text : String} : lineBreaks text = 0 ↔ '\n' ∉ text.toList :=
  List.count_eq_zero

theorem lineBreaks_join (texts : List String) :
    lineBreaks (String.join texts) = (texts.map lineBreaks).sum := by
  rw [lineBreaks, String.toList_join, List.count_flatMap]
  rfl

/-- A separator without line breaks adds none. -/
theorem lineBreaks_intercalate {separator : String} (h : lineBreaks separator = 0)
    (texts : List String) :
    lineBreaks (String.intercalate separator texts) = (texts.map lineBreaks).sum := by
  induction texts with
  | nil => rfl
  | cons first rest ih =>
      cases rest with
      | nil => simp
      | cons second rest =>
          rw [String.intercalate_cons_cons, lineBreaks_append, lineBreaks_append, h, ih]
          rfl

/-- A line break is no digit, in whatever base. -/
theorem lineBreak_notMem_toDigits {base : Nat} (hbase : 1 < base) (n : Nat) :
    '\n' ∉ Nat.toDigits base n := by
  have hsmall : ∀ d < 16, '\n' ≠ Nat.digitChar d := by decide
  have hdigit (d : Nat) : '\n' ≠ Nat.digitChar d := by
    rcases Nat.lt_or_ge d 16 with hd | hd
    · exact hsmall d hd
    · rw [Nat.digitChar_eq_star.mpr hd]
      decide
  induction n using Nat.strong_induction_on with
  | _ n ih =>
      rw [Nat.toDigits_eq_if hbase]
      split
      · exact List.not_mem_cons_of_ne_of_not_mem (hdigit n) List.not_mem_nil
      · next hle =>
          have hpos : 0 < n := by omega
          have hhigher := ih (n / base) (Nat.div_lt_self hpos hbase)
          simp [hhigher, hdigit]

theorem lineBreak_notMem_quotedChar (c : Char) : '\n' ∉ quotedChar c := by
  rw [quotedChar]
  split_ifs with _ _ _ _ hbreak
  · decide
  · decide
  · decide
  · decide
  · decide
  · decide
  · have hdigits := lineBreak_notMem_toDigits (by decide : 1 < 16) c.toNat
    simpa using hdigits
  · simpa using Ne.symm hbreak

theorem lineBreaks_quoted (text : String) : lineBreaks (quoted text) = 0 := by
  rw [lineBreaks_eq_zero_iff, quoted, String.toList_ofList]
  simp [lineBreak_notMem_quotedChar]

end Text

/-- Writing adds one entry at most. -/
theorem Table.mem_insert {α : Type} {key : String} {entry : α} {table : Table α}
    {field : String × α} (h : field ∈ insert key entry table) :
    field = (key, entry) ∨ field ∈ table := by
  induction table with
  | nil => exact Or.inl (List.mem_singleton.mp h)
  | cons head rest ih =>
      obtain ⟨k, old⟩ := head
      rw [insert] at h
      split at h
      · next hk =>
          subst hk
          exact (List.mem_cons.mp h).imp_right (List.mem_cons_of_mem _)
      · rcases List.mem_cons.mp h with rfl | hrest
        · exact Or.inr List.mem_cons_self
        · exact (ih hrest).imp_right (List.mem_cons_of_mem _)

theorem Table.mem_insertAll {α : Type} {entries table : Table α} {field : String × α}
    (h : field ∈ insertAll entries table) : field ∈ entries ∨ field ∈ table := by
  induction entries generalizing table with
  | nil => exact Or.inr h
  | cons first rest ih =>
      rcases ih h with hrest | hinsert
      · exact Or.inl (List.mem_cons_of_mem _ hrest)
      · rcases mem_insert hinsert with rfl | htable
        · exact Or.inl List.mem_cons_self
        · exact Or.inr htable

open Text

namespace Number

theorem lineBreak_notMem_decimal (d : Decimal) : '\n' ∉ d.text := by
  have hdigits := lineBreak_notMem_toDigits (by decide : 1 < 10) d.digits
  rw [Decimal.text]
  simp only
  split_ifs
  · simp [hdigits]
  · have htake (n : Nat) : '\n' ∉ (Nat.toDigits 10 d.digits).take n :=
      fun h => hdigits (List.mem_of_mem_take h)
    have hdrop (n : Nat) : '\n' ∉ (Nat.toDigits 10 d.digits).drop n :=
      fun h => hdigits (List.mem_of_mem_drop h)
    simpa using ⟨htake _, hdrop _⟩
  · simp [hdigits]

theorem lineBreaks_display (n : Number) : lineBreaks n.display = 0 := by
  have hmagnitude : '\n' ∉ (if n.isInfinite then "Infinity".toList
      else if n.isZero then ['0'] else n.shortest.text) := by
    split_ifs
    · decide
    · decide
    · exact lineBreak_notMem_decimal n.shortest
  rw [lineBreaks_eq_zero_iff, display, String.toList_ofList, text]
  split
  · decide
  · simp only
    split
    · exact List.not_mem_cons_of_ne_of_not_mem (by decide) hmagnitude
    · exact hmagnitude

end Number

namespace Value

mutual

/-- The keys of the objects in a value, at any depth. -/
def keys : Value → List String
  | array items => keysOfItems items
  | object fields => keysOfFields fields
  | _ => []

def keysOfItems : List Value → List String
  | [] => []
  | item :: rest => item.keys ++ keysOfItems rest

def keysOfFields : List (String × Value) → List String
  | [] => []
  | (key, entry) :: rest => key :: entry.keys ++ keysOfFields rest

end

theorem keys_array (items : List Value) : (array items).keys = items.flatMap keys := by
  rw [keys]
  induction items with
  | nil => rfl
  | cons item rest ih => rw [keysOfItems, ih, List.flatMap_cons]

theorem keys_object (fields : Table Value) :
    (object fields).keys = fields.flatMap fun field => field.1 :: field.2.keys := by
  rw [keys]
  induction fields with
  | nil => rfl
  | cons field rest ih => rw [keysOfFields, ih, List.flatMap_cons]

theorem display_array (items : List Value) :
    (array items).display = "[" ++ String.intercalate ", " (items.map display) ++ "]" := by
  have hitems : displayItems items = items.map display := by
    induction items with
    | nil => rfl
    | cons item rest ih => rw [displayItems, ih, List.map_cons]
  rw [display, hitems]

theorem display_object (fields : Table Value) :
    (object fields).display = "\x7b" ++ String.intercalate ", "
      (fields.map fun field => field.1 ++ ": " ++ field.2.display) ++ "\x7d" := by
  have hfields : displayFields fields =
      fields.map fun field => field.1 ++ ": " ++ field.2.display := by
    induction fields with
    | nil => rfl
    | cons field rest ih => rw [displayFields, ih, List.map_cons]
  rw [display, hfields]

/-- The keys of a value are those of the objects that stand in it. -/
theorem mem_keys_iff {key : String} (v : Value) :
    key ∈ v.keys ↔ ∃ fields, Occurs (object fields) v ∧ key ∈ Table.keys fields := by
  induction v using Value.induction with
  | leaf v harray hobject =>
      have hkeys : v.keys = [] := by
        cases v <;> first | rfl | exact absurd rfl harray | exact absurd rfl hobject
      rw [hkeys]
      constructor
      · intro hmem
        cases hmem
      · rintro ⟨fields, hoccurs, _⟩
        cases hoccurs with
        | here => exact absurd rfl hobject
        | item => exact absurd rfl harray
        | entry => exact absurd rfl hobject
  | array items ih =>
      rw [keys_array, List.mem_flatMap]
      constructor
      · rintro ⟨item, hitem, hkey⟩
        obtain ⟨fields, hoccurs, hkey⟩ := (ih item hitem).mp hkey
        exact ⟨fields, .item hitem hoccurs, hkey⟩
      · rintro ⟨fields, hoccurs, hkey⟩
        cases hoccurs with
        | item hitem hoccurs => exact ⟨_, hitem, (ih _ hitem).mpr ⟨fields, hoccurs, hkey⟩⟩
  | object fields ih =>
      rw [keys_object, List.mem_flatMap]
      constructor
      · rintro ⟨field, hfield, hkey⟩
        rcases List.mem_cons.mp hkey with rfl | hkey
        · exact ⟨fields, .here, List.mem_map_of_mem hfield⟩
        · obtain ⟨inner, hoccurs, hkey⟩ := (ih field hfield).mp hkey
          exact ⟨inner, .entry hfield hoccurs, hkey⟩
      · rintro ⟨inner, hoccurs, hkey⟩
        cases hoccurs with
        | here =>
            obtain ⟨field, hfield, rfl⟩ := List.mem_map.mp hkey
            exact ⟨field, hfield, List.mem_cons_self⟩
        | entry hfield hoccurs =>
            exact ⟨_, hfield, List.mem_cons_of_mem _ ((ih _ hfield).mpr ⟨inner, hoccurs, hkey⟩)⟩

/-- The line breaks in the keys of a value. -/
def keyBreaks (v : Value) : Nat :=
  (v.keys.map lineBreaks).sum

theorem keyBreaks_array (items : List Value) :
    (array items).keyBreaks = (items.map keyBreaks).sum := by
  rw [keyBreaks, keys_array, List.flatMap, List.map_flatten, List.sum_flatten, List.map_map,
    List.map_map]
  rfl

theorem keyBreaks_object (fields : Table Value) :
    (object fields).keyBreaks =
      (fields.map fun field => lineBreaks field.1 + field.2.keyBreaks).sum := by
  rw [keyBreaks, keys_object, List.flatMap, List.map_flatten, List.sum_flatten, List.map_map,
    List.map_map]
  rfl

/-- No line break is counted if no key of an object in the value holds one. -/
theorem keyBreaks_eq_zero_iff (v : Value) :
    v.keyBreaks = 0 ↔ ∀ fields, Occurs (object fields) v → ∀ key ∈ Table.keys fields,
      '\n' ∉ key.toList := by
  rw [keyBreaks, List.sum_eq_zero_iff]
  constructor
  · intro h fields hoccurs key hkey
    have hmem : key ∈ v.keys := (mem_keys_iff v).mpr ⟨fields, hoccurs, hkey⟩
    exact lineBreaks_eq_zero_iff.mp (h _ (List.mem_map_of_mem hmem))
  · intro h count hcount
    obtain ⟨key, hmem, rfl⟩ := List.mem_map.mp hcount
    obtain ⟨fields, hoccurs, hkey⟩ := (mem_keys_iff v).mp hmem
    exact lineBreaks_eq_zero_iff.mpr (h fields hoccurs key hkey)

/-- The kinds of values that JSON texts do not have. -/
def foreignKinds : List Kind :=
  [.undefined, .regexp, .function]

/-- A value that a JSON text can stand for: nothing foreign stands in it, at any depth. -/
def IsJson (v : Value) : Prop :=
  ∀ part, Occurs part v → part.kind ∉ foreignKinds

theorem isJson_leaf {v : Value} (h : v.kind ∈ [Kind.null, .boolean, .number, .string]) :
    v.IsJson := by
  intro part hoccurs
  cases hoccurs with
  | here =>
      have hall : ∀ kind ∈ [Kind.null, .boolean, .number, .string], kind ∉ foreignKinds := by decide
      exact hall v.kind h
  | item => exact absurd h (by decide : Kind.array ∉ [Kind.null, .boolean, .number, .string])
  | entry => exact absurd h (by decide : Kind.object ∉ [Kind.null, .boolean, .number, .string])

theorem isJson_array {items : List Value} :
    (array items).IsJson ↔ ∀ item ∈ items, item.IsJson := by
  constructor
  · exact fun h item hitem part hoccurs => h part (.item hitem hoccurs)
  · intro h part hoccurs
    cases hoccurs with
    | here => exact (by decide : Kind.array ∉ foreignKinds)
    | item hitem hoccurs => exact h _ hitem part hoccurs

theorem isJson_object {fields : Table Value} :
    (object fields).IsJson ↔ ∀ field ∈ fields, field.2.IsJson := by
  constructor
  · exact fun h field hfield part hoccurs => h part (.entry hfield hoccurs)
  · intro h part hoccurs
    cases hoccurs with
    | here => exact (by decide : Kind.object ∉ foreignKinds)
    | entry hfield hoccurs => exact h _ hfield part hoccurs

theorem isJson_ofFields {fields : List (String × Value)}
    (h : ∀ field ∈ fields, field.2.IsJson) : (ofFields fields).IsJson :=
  isJson_object.mpr fun field hfield =>
    h field ((Table.mem_insertAll hfield).resolve_right List.not_mem_nil)

/-- The literal form of a value holds the line breaks of its keys, and no others. -/
theorem lineBreaks_display (v : Value) : v.IsJson → lineBreaks v.display = v.keyBreaks := by
  induction v using Value.induction with
  | leaf v harray hobject =>
      intro hjson
      have hkind := hjson v .here
      cases v with
      | null => rfl
      | boolean b => cases b <;> rfl
      | number n => exact n.lineBreaks_display
      | string s => exact lineBreaks_quoted s
      | array items => exact absurd rfl harray
      | object fields => exact absurd rfl hobject
      | undefined => exact absurd hkind (by decide)
      | regexp pattern => exact absurd hkind (by decide : ¬ Kind.regexp ∉ foreignKinds)
      | function f => exact absurd hkind (by decide : ¬ Kind.function ∉ foreignKinds)
  | array items ih =>
      intro hjson
      have hitems : items.map (lineBreaks ∘ display) = items.map keyBreaks :=
        List.map_congr_left fun item hitem => ih item hitem (isJson_array.mp hjson item hitem)
      rw [display_array, lineBreaks_append, lineBreaks_append, lineBreaks_intercalate rfl,
        List.map_map, hitems, ← keyBreaks_array]
      exact Nat.zero_add _
  | object fields ih =>
      intro hjson
      have hfields : fields.map
          (lineBreaks ∘ fun field => field.1 ++ ": " ++ field.2.display) =
            fields.map fun field => lineBreaks field.1 + field.2.keyBreaks := by
        refine List.map_congr_left fun field hfield => ?_
        have hentry := ih field hfield (isJson_object.mp hjson field hfield)
        rw [Function.comp_apply, lineBreaks_append, lineBreaks_append, hentry]
        rfl
      rw [display_object, lineBreaks_append, lineBreaks_append, lineBreaks_intercalate rfl,
        List.map_map, hfields, ← keyBreaks_object]
      exact Nat.zero_add _

end Value

namespace Json

/-- A reader all of whose values are such as JSON texts stand for. -/
def GivesJson (read : ValueReader) : Prop :=
  ∀ {text v rest}, read text = some (v, rest) → v.IsJson

theorem isJson_of_readItems? {read : ValueReader} (hread : GivesJson read) {bound : Nat}
    {text rest : List Char} {items : List Value}
    (h : readItems? read bound text = some (items, rest)) : ∀ item ∈ items, item.IsJson := by
  induction bound generalizing text items with
  | zero => cases h
  | succ bound ih =>
      rw [readItems?] at h
      obtain ⟨⟨first, behind⟩, hfirst, h⟩ := Option.bind_eq_some_iff.mp h
      simp only at h
      split at h
      · cases h
        simpa using hread hfirst
      · obtain ⟨⟨others, last⟩, hothers, h⟩ := Option.bind_eq_some_iff.mp h
        cases h
        exact List.forall_mem_cons.mpr ⟨hread hfirst, ih hothers⟩
      · cases h

theorem isJson_of_readField? {read : ValueReader} (hread : GivesJson read)
    {text rest : List Char} {field : String × Value}
    (h : readField? read text = some (field, rest)) : field.2.IsJson := by
  rw [readField?] at h
  split at h
  · obtain ⟨⟨key, behind⟩, _, h⟩ := Option.bind_eq_some_iff.mp h
    simp only at h
    split at h
    · obtain ⟨⟨entry, last⟩, hentry, h⟩ := Option.bind_eq_some_iff.mp h
      cases h
      exact hread hentry
    · cases h
  · cases h

theorem isJson_of_readFields? {read : ValueReader} (hread : GivesJson read) {bound : Nat}
    {text rest : List Char} {fields : List (String × Value)}
    (h : readFields? read bound text = some (fields, rest)) :
    ∀ field ∈ fields, field.2.IsJson := by
  induction bound generalizing text fields with
  | zero => cases h
  | succ bound ih =>
      rw [readFields?] at h
      obtain ⟨⟨first, behind⟩, hfirst, h⟩ := Option.bind_eq_some_iff.mp h
      have hfield := isJson_of_readField? hread hfirst
      simp only at h
      split at h
      · cases h
        simpa using hfield
      · obtain ⟨⟨others, last⟩, hothers, h⟩ := Option.bind_eq_some_iff.mp h
        cases h
        exact List.forall_mem_cons.mpr ⟨hfield, ih hothers⟩
      · cases h

theorem isJson_of_readScalar? {conversion : Conversion} {text rest : List Char} {v : Value}
    (h : readScalar? conversion text = some (v, rest)) : v.IsJson := by
  revert h
  fun_cases readScalar? conversion text
  all_goals
    intro h
    obtain ⟨_, _, heq⟩ := Option.map_eq_some_iff.mp h
    cases heq
    exact Value.isJson_leaf (by simp [Value.kind])

/-- A value that is read from a JSON text is a JSON value. -/
theorem givesJson_readValue? (conversion : Conversion) (levels : Nat) :
    GivesJson (readValue? conversion levels) := by
  induction levels using Nat.strong_induction_on with
  | _ levels ih =>
      intro text v rest
      -- what stands in a container is read with one level less
      fun_cases readValue? conversion levels text
      case case1 =>
        intro h
        obtain ⟨_, _, heq⟩ := Option.map_eq_some_iff.mp h
        cases heq
        exact Value.isJson_leaf (by simp [Value.kind])
      case case2 =>
        intro h
        cases h
      case case3 =>
        intro h
        cases h
        exact Value.isJson_array.mpr (List.forall_mem_nil _)
      case case4 =>
        intro h
        obtain ⟨_, hitems, heq⟩ := Option.map_eq_some_iff.mp h
        cases heq
        exact Value.isJson_array.mpr (isJson_of_readItems? (ih _ (Nat.lt_succ_self _)) hitems)
      case case5 =>
        intro h
        cases h
      case case6 =>
        intro h
        cases h
        exact Value.isJson_object.mpr (List.forall_mem_nil _)
      case case7 =>
        intro h
        obtain ⟨_, hfields, heq⟩ := Option.map_eq_some_iff.mp h
        cases heq
        exact Value.isJson_ofFields (isJson_of_readFields? (ih _ (Nat.lt_succ_self _)) hfields)
      case case8 => exact isJson_of_readScalar?

theorem isJson_of_read? {conversion : Conversion} {text : String} {v : Value}
    (h : read? conversion text = some v) : v.IsJson := by
  rw [read?] at h
  split at h
  · next hread =>
      split at h
      · cases h
        exact givesJson_readValue? conversion depthLimit hread
      · cases h
  · cases h

theorem isJson_of_readStreamFrom? {conversion : Conversion} {bound : Nat} {text : List Char}
    {values : List Value} (h : readStreamFrom? conversion bound text = some values) :
    ∀ v ∈ values, v.IsJson := by
  induction bound generalizing text values with
  | zero => cases h
  | succ bound ih =>
      rw [readStreamFrom?] at h
      split at h
      · cases h
        exact List.forall_mem_nil _
      · obtain ⟨⟨first, rest⟩, hfirst, h⟩ := Option.bind_eq_some_iff.mp h
        simp only at h
        split at h
        · obtain ⟨others, hothers, h⟩ := Option.bind_eq_some_iff.mp h
          cases h
          exact List.forall_mem_cons.mpr
            ⟨givesJson_readValue? conversion depthLimit hfirst, ih hothers⟩
        · cases h

end Json

end Switchboard
