import Switchboard.Proofs.Dispatch.Offences

/-!
Which values describe rules, and which descriptors rules are built of. A value is read as a
descriptor if it is a string, an object of descriptions, or a pair of either and a default; the
descriptor gives the value back, and holds no default in a default, so all that can keep a rule
from being built of it is a blank type text. A rule forgets nothing of its descriptor, and both
have one text.
-/

namespace Switchboard

variable {σ : Type}

/-- The values that describe rules. -/
inductive Value.Describes : Value → Prop
  | text (source : String) : Describes (.string source)
  | record {fields : Table Value} (h : ∀ field ∈ fields, Describes field.2) :
      Describes (.object fields)
  | pair {v : Value} (hkind : v.kind = .string ∨ v.kind = .object) (h : Describes v)
      (default : Value) : Describes (.array [v, default])

namespace Descriptor

mutual

/-- The value that a descriptor is read from. -/
def toValue : Descriptor → Value
  | type source => .string source
  | shape fields => .object (toFields fields)
  | defaulted inner default => .array [inner.toValue, default]

def toFields : List (String × Descriptor) → List (String × Value)
  | [] => []
  | (key, field) :: rest => (key, field.toValue) :: toFields rest

end

/-- A descriptor that stands in another, at any depth. The default values are no part of it. -/
inductive Occurs (part : Descriptor) : Descriptor → Prop
  | here : Occurs part part
  | field {fields : List (String × Descriptor)} {field : String × Descriptor}
      (hfield : field ∈ fields) (h : Occurs part field.2) : Occurs part (shape fields)
  | inner {inner : Descriptor} (h : Occurs part inner) (default : Value) :
      Occurs part (defaulted inner default)

/-- No default stands directly in a default. -/
def SingleDefaults (d : Descriptor) : Prop :=
  ∀ inner first second, ¬ Occurs (defaulted (defaulted inner first) second) d

/-- No type text is blank. -/
def Legible (d : Descriptor) : Prop :=
  ∀ source, Occurs (type source) d → Text.isBlankText source = false

/-- Induction along the fields of shapes and under defaults. -/
@[elab_as_elim]
theorem induction {motive : Descriptor → Prop} (type : ∀ source, motive (type source))
    (shape : ∀ fields : List (String × Descriptor), (∀ field ∈ fields, motive field.2) →
      motive (shape fields))
    (defaulted : ∀ inner default, motive inner → motive (defaulted inner default)) :
    ∀ d, motive d
  | .type source => type source
  | .shape fields => shape fields fun field hfield =>
      have hlt : sizeOf field.2 < sizeOf (Descriptor.shape fields) :=
        (Table.sizeOf_entry_lt hfield).trans (by simp)
      induction type shape defaulted field.2
  | .defaulted inner default => defaulted inner default (induction type shape defaulted inner)
  termination_by d => sizeOf d
  decreasing_by
    · exact hlt
    · simp only [Descriptor.defaulted.sizeOf_spec]
      omega

/-! Reading values -/

theorem ofFields_eq_ok_iff {fields : List (String × Value)}
    {found : List (String × Descriptor)} : ofFields fields = .ok found ↔
      List.Forall₂ (fun field d => field.1 = d.1 ∧ ofValue field.2 = .ok d.2) fields found := by
  induction fields generalizing found with
  | nil => cases found <;> simp [ofFields]
  | cons field rest ih =>
      obtain ⟨key, v⟩ := field
      rw [ofFields]
      cases found with
      | nil => cases ofValue v <;> cases ofFields rest <;> simp [Except.map]
      | cons d others =>
          obtain ⟨key', d⟩ := d
          rw [List.forall₂_cons, ← ih]
          cases ofValue v <;> cases ofFields rest <;> simp [Except.map, and_assoc]

theorem ofValue_object_eq_ok_iff {fields : Table Value} {d : Descriptor} :
    ofValue (.object fields) = .ok d ↔ ∃ found, d = shape found ∧
      List.Forall₂ (fun field d => field.1 = d.1 ∧ ofValue field.2 = .ok d.2) fields found := by
  simp only [← ofFields_eq_ok_iff]
  rw [ofValue]
  cases ofFields fields <;> simp [Except.map, eq_comm]

theorem ofValue_pair {v : Value} (h : v.kind = .string ∨ v.kind = .object) (default : Value) :
    ofValue (.array [v, default]) = (ofValue v).map fun inner => defaulted inner default := by
  cases v with
  | string source => rfl
  | object fields =>
      rw [ofValue, ofValue]
      cases ofFields fields <;> rfl
  | _ => rcases h with ⟨⟨⟩⟩ | ⟨⟨⟩⟩

/-- A pair is read if its first part is a string or an object, and the part is read; other arrays
are not. -/
theorem ofValue_array_eq_ok_iff {items : List Value} {d : Descriptor} :
    ofValue (.array items) = .ok d ↔ ∃ v default inner, items = [v, default] ∧
      (v.kind = .string ∨ v.kind = .object) ∧ ofValue v = .ok inner ∧
      d = defaulted inner default := by
  constructor
  · intro h
    have hpair : ∃ v default, items = [v, default] ∧ (v.kind = .string ∨ v.kind = .object) := by
      unfold ofValue at h
      split at h
      · next heq => cases heq
      · next heq => cases heq
      · next heq =>
          cases heq
          exact ⟨_, _, rfl, Or.inl rfl⟩
      · next heq =>
          cases heq
          exact ⟨_, _, rfl, Or.inr rfl⟩
      · cases h
    obtain ⟨v, default, rfl, hkind⟩ := hpair
    rw [ofValue_pair hkind] at h
    cases hinner : ofValue v with
    | error fault =>
        rw [hinner] at h
        cases h
    | ok inner =>
        rw [hinner] at h
        cases h
        exact ⟨v, default, inner, rfl, hkind, hinner, rfl⟩
  · rintro ⟨v, default, inner, rfl, hkind, hinner, rfl⟩
    rw [ofValue_pair hkind, hinner]
    rfl

theorem ofValue_leaf_eq_ok_iff {v : Value} (harray : v.kind ≠ .array) (hobject : v.kind ≠ .object)
    {d : Descriptor} : ofValue v = .ok d ↔ ∃ source, v = .string source ∧ d = type source := by
  cases v with
  | array => exact absurd rfl harray
  | object => exact absurd rfl hobject
  | _ => simp [ofValue, eq_comm]

/-! What is read -/

theorem toFields_eq_map (fields : List (String × Descriptor)) :
    toFields fields = fields.map fun field => (field.1, field.2.toValue) := by
  induction fields with
  | nil => rfl
  | cons field rest ih => rw [toFields, ih, List.map_cons]

theorem singleDefaults_shape {fields : List (String × Descriptor)} :
    SingleDefaults (shape fields) ↔ ∀ field ∈ fields, SingleDefaults field.2 := by
  constructor
  · exact fun h field hfield inner first second hdouble =>
      h inner first second (.field hfield hdouble)
  · intro h inner first second hdouble
    cases hdouble with
    | field hfield hdouble => exact h _ hfield inner first second hdouble

theorem singleDefaults_defaulted {d : Descriptor} {default : Value} :
    SingleDefaults (defaulted d default) ↔
      (∀ inner first, d ≠ defaulted inner first) ∧ SingleDefaults d := by
  constructor
  · refine fun h => ⟨?_, fun inner first second hdouble => h inner first second (.inner hdouble _)⟩
    rintro inner first rfl
    exact h inner first default .here
  · rintro ⟨hplain, h⟩ inner first second hdouble
    cases hdouble with
    | here => exact hplain inner first rfl
    | inner hdouble => exact h inner first second hdouble

/-- The values that are read with no pair give types and shapes. -/
theorem ne_defaulted_of_ofValue {v : Value} (hkind : v.kind = .string ∨ v.kind = .object)
    {d : Descriptor} (h : ofValue v = .ok d) (inner : Descriptor) (first : Value) :
    d ≠ defaulted inner first := by
  rintro rfl
  cases v with
  | string source => cases h
  | object fields =>
      obtain ⟨_, ⟨⟩, _⟩ := ofValue_object_eq_ok_iff.mp h
  | _ => rcases hkind with ⟨⟨⟩⟩ | ⟨⟨⟩⟩

/-- A descriptor that is read from a value gives the value back, and no pair in the value is the
first part of a pair. -/
theorem of_ofValue (v : Value) : ∀ {d}, ofValue v = .ok d → d.toValue = v ∧ SingleDefaults d := by
  induction v using Value.induction with
  | leaf v harray hobject =>
      intro d h
      obtain ⟨source, rfl, rfl⟩ := (ofValue_leaf_eq_ok_iff harray hobject).mp h
      exact ⟨rfl, fun _ _ _ hdouble => nomatch hdouble⟩
  | array items ih =>
      intro d h
      obtain ⟨v, default, inner, rfl, hkind, hinner, rfl⟩ := ofValue_array_eq_ok_iff.mp h
      obtain ⟨hvalue, hsingle⟩ := ih v List.mem_cons_self hinner
      refine ⟨?_, singleDefaults_defaulted.mpr ⟨ne_defaulted_of_ofValue hkind hinner, hsingle⟩⟩
      rw [toValue, hvalue]
  | object fields ih =>
      intro d h
      obtain ⟨found, rfl, hfound⟩ := ofValue_object_eq_ok_iff.mp h
      have hback : List.Forall₂ (fun d field => SingleDefaults d.2 ∧ (d.1, d.2.toValue) = field)
          found fields := by
        refine List.Forall₂.flip (((List.forall₂_and_left _ _).mpr ⟨ih, hfound⟩).imp ?_)
        rintro ⟨key, v⟩ d ⟨hread, rfl, hd⟩
        obtain ⟨rfl, hsingle⟩ := hread hd
        exact ⟨hsingle, rfl⟩
      obtain ⟨hsingle, hfields⟩ := (List.forall₂_and_left _ _).mp hback
      have hmap : found.map (fun d => (d.1, d.2.toValue)) = fields := by
        rw [← List.forall₂_eq_eq_eq]
        exact List.forall₂_map_left_iff.mpr hfields
      exact ⟨by rw [toValue, toFields_eq_map, hmap], singleDefaults_shape.mpr hsingle⟩

/-- A descriptor without a default in a default is read from the value that it gives back. -/
theorem ofValue_toValue (d : Descriptor) : SingleDefaults d → ofValue d.toValue = .ok d := by
  induction d using induction with
  | type source => exact fun _ => rfl
  | shape fields ih =>
      intro h
      rw [singleDefaults_shape] at h
      rw [toValue, ofValue_object_eq_ok_iff, toFields_eq_map]
      refine ⟨fields, rfl, List.forall₂_map_left_iff.mpr (List.forall₂_same.mpr ?_)⟩
      exact fun field hfield => ⟨rfl, ih field hfield (h field hfield)⟩
  | defaulted inner default ih =>
      intro h
      obtain ⟨hplain, h⟩ := singleDefaults_defaulted.mp h
      have hkind : inner.toValue.kind = .string ∨ inner.toValue.kind = .object := by
        cases inner with
        | type => exact Or.inl rfl
        | shape => exact Or.inr rfl
        | defaulted inner first => exact absurd rfl (hplain inner first)
      rw [toValue, ofValue_pair hkind, ih h]
      rfl

theorem ofValue_eq_ok_iff {v : Value} {d : Descriptor} :
    ofValue v = .ok d ↔ d.toValue = v ∧ SingleDefaults d := by
  constructor
  · exact of_ofValue v
  · rintro ⟨rfl, h⟩
    exact ofValue_toValue d h

/-- An object is read if and only if all its entries are. -/
theorem exists_ofValue_object_iff {fields : Table Value} :
    (∃ d, ofValue (.object fields) = .ok d) ↔ ∀ field ∈ fields, ∃ d, ofValue field.2 = .ok d := by
  simp only [ofValue_object_eq_ok_iff]
  rw [exists_comm]
  simp only [exists_and_right, exists_eq, true_and]
  induction fields with
  | nil => simp
  | cons field rest ih =>
      rw [List.forall_mem_cons, ← ih]
      constructor
      · rintro ⟨_, hfound⟩
        cases hfound with
        | cons hd hrest => exact ⟨⟨_, hd.2⟩, _, hrest⟩
      · rintro ⟨⟨d, hd⟩, found, hrest⟩
        exact ⟨(field.1, d) :: found, .cons ⟨rfl, hd⟩ hrest⟩

theorem describes_of_ofValue (v : Value) : (∃ d, ofValue v = .ok d) → v.Describes := by
  induction v using Value.induction with
  | leaf v harray hobject =>
      rintro ⟨d, h⟩
      obtain ⟨source, rfl, rfl⟩ := (ofValue_leaf_eq_ok_iff harray hobject).mp h
      exact .text source
  | array items ih =>
      rintro ⟨d, h⟩
      obtain ⟨v, default, inner, rfl, hkind, hinner, rfl⟩ := ofValue_array_eq_ok_iff.mp h
      exact .pair hkind (ih v List.mem_cons_self ⟨inner, hinner⟩) default
  | object fields ih =>
      intro h
      exact .record fun field hfield => ih field hfield (exists_ofValue_object_iff.mp h field hfield)

/-- A value is read if and only if it describes a rule. -/
theorem exists_ofValue_iff (v : Value) : (∃ d, ofValue v = .ok d) ↔ v.Describes := by
  refine ⟨describes_of_ofValue v, fun h => ?_⟩
  induction h with
  | text source => exact ⟨type source, rfl⟩
  | record _ ih => exact exists_ofValue_object_iff.mpr ih
  | pair hkind _ default ih =>
      obtain ⟨inner, hinner⟩ := ih
      exact ⟨defaulted inner default,
        ofValue_array_eq_ok_iff.mpr ⟨_, default, inner, rfl, hkind, hinner, rfl⟩⟩

/-! What is refused -/

theorem refusedField?_eq_findSome? (fields : List (String × Descriptor)) :
    refusedField? fields = fields.findSome? fun field => field.2.refused? := by
  induction fields with
  | nil => rfl
  | cons field rest ih =>
      obtain ⟨key, d⟩ := field
      rw [refusedField?, ih, List.findSome?_cons]
      cases d.refused? <;> rfl

theorem refused?_defaulted {d : Descriptor} (h : ∀ inner first, d ≠ defaulted inner first)
    (default : Value) : (defaulted d default).refused? = d.refused? := by
  cases d with
  | type => rfl
  | shape => rfl
  | defaulted inner first => exact absurd rfl (h inner first)

/-- What is refused stands in the descriptor, and is a blank type text or a default in a
default. -/
theorem of_refused? (d : Descriptor) : ∀ {bad}, d.refused? = some bad → Occurs bad d ∧
    ((∃ source, bad = type source ∧ Text.isBlankText source = true) ∨
      ∃ inner first second, bad = defaulted (defaulted inner first) second) := by
  induction d using induction with
  | type source =>
      intro bad h
      rw [refused?] at h
      split at h
      · next hblank =>
          cases h
          exact ⟨.here, Or.inl ⟨source, rfl, hblank⟩⟩
      · cases h
  | shape fields ih =>
      intro bad h
      rw [refused?, refusedField?_eq_findSome?] at h
      obtain ⟨field, hfield, hbad⟩ := List.exists_of_findSome?_eq_some h
      obtain ⟨hoccurs, hcause⟩ := ih field hfield hbad
      exact ⟨.field hfield hoccurs, hcause⟩
  | defaulted inner default ih =>
      intro bad h
      by_cases hplain : ∀ deeper first, inner ≠ defaulted deeper first
      · rw [refused?_defaulted hplain] at h
        obtain ⟨hoccurs, hcause⟩ := ih h
        exact ⟨.inner hoccurs default, hcause⟩
      · push Not at hplain
        obtain ⟨deeper, first, rfl⟩ := hplain
        cases h
        exact ⟨.here, Or.inr ⟨deeper, first, default, rfl⟩⟩

theorem legible_type {source : String} :
    Legible (type source) ↔ Text.isBlankText source = false := by
  refine ⟨fun h => h source .here, fun h other hother => ?_⟩
  cases hother
  exact h

theorem legible_shape {fields : List (String × Descriptor)} :
    Legible (shape fields) ↔ ∀ field ∈ fields, Legible field.2 := by
  constructor
  · exact fun h field hfield source hsource => h source (.field hfield hsource)
  · intro h source hsource
    cases hsource with
    | field hfield hsource => exact h _ hfield source hsource

theorem legible_defaulted {d : Descriptor} {default : Value} :
    Legible (defaulted d default) ↔ Legible d := by
  constructor
  · exact fun h source hsource => h source (.inner hsource default)
  · intro h source hsource
    cases hsource with
    | inner hsource => exact h source hsource

/-- Nothing is refused if and only if no default stands in a default and no type text is blank. -/
theorem refused?_eq_none_iff (d : Descriptor) :
    d.refused? = none ↔ SingleDefaults d ∧ Legible d := by
  induction d using induction with
  | type source =>
      have hsingle : SingleDefaults (type source) := fun _ _ _ hdouble => nomatch hdouble
      rw [refused?, legible_type, and_iff_right hsingle]
      split <;> simp_all
  | shape fields ih =>
      rw [refused?, refusedField?_eq_findSome?, List.findSome?_eq_none_iff, singleDefaults_shape,
        legible_shape, ← forall₂_and]
      exact forall₂_congr ih
  | defaulted inner default ih =>
      rw [singleDefaults_defaulted, legible_defaulted, and_assoc, ← ih]
      by_cases hplain : ∀ deeper first, inner ≠ defaulted deeper first
      · rw [refused?_defaulted hplain, and_iff_right hplain]
      · refine iff_of_false ?_ fun h => hplain h.1
        push Not at hplain
        obtain ⟨deeper, first, rfl⟩ := hplain
        exact Option.some_ne_none _

end Descriptor

namespace Rule

/-- A descriptor with a default put beside it, if there is one. -/
def describedWith (d : Descriptor) : Option Value → Descriptor
  | none => d
  | some default => .defaulted d default

theorem display_describedWith (d : Descriptor) (default? : Option Value) :
    (describedWith d default?).display = withDefaultText d.display default? := by
  cases default? <;> rfl

mutual

/-- What a rule was built of. The tree of a type text is left out. -/
def descriptor : Rule → Descriptor
  | scalar source _ default? => describedWith (.type source) default?
  | shape fields default? => describedWith (.shape (descriptors fields)) default?

def descriptors : List (String × Rule) → List (String × Descriptor)
  | [] => []
  | (key, field) :: rest => (key, field.descriptor) :: descriptors rest

end

mutual

/-- A rule is shown as what it was built of. -/
theorem display_descriptor (rule : Rule) : rule.descriptor.display = rule.display := by
  match rule with
  | .scalar source _ default? => exact display_describedWith (.type source) default?
  | .shape fields default? =>
      rw [descriptor, display_describedWith, Descriptor.display, displayFields_descriptors fields,
        display]

theorem displayFields_descriptors (fields : List (String × Rule)) :
    Descriptor.displayFields (descriptors fields) = displayFields fields := by
  match fields with
  | [] => rfl
  | (key, field) :: rest =>
      rw [descriptors, Descriptor.displayFields, display_descriptor field,
        displayFields_descriptors rest, displayFields]

end

variable {answers : Answers σ}

theorem descriptor_of_buildScalar {source : String} {default? : Option Value}
    {registry built : Registry σ} {rule : Rule}
    (h : (buildScalar answers source default?).run registry = some (.ok rule, built)) :
    rule.descriptor = describedWith (.type source) default? := by
  rw [buildScalar] at h
  split at h
  · cases of_report_run h
  · cases h
    rw [descriptor]

mutual

/-- A rule keeps all of what it is built of. -/
theorem descriptor_of_build (d : Descriptor) {registry built : Registry σ} {rule : Rule}
    (h : (build answers d).run registry = some (.ok rule, built)) : rule.descriptor = d := by
  match d with
  | .type source => exact descriptor_of_buildScalar h
  | .shape fields =>
      rcases Attempt.run_bind_eq_some_iff.mp h with ⟨_, _, ⟨⟩⟩ | ⟨rules, _, hrules, hrule⟩
      cases hrule
      rw [descriptor, descriptors_of_buildFields fields hrules, describedWith]
  | .defaulted (.type source) default => exact descriptor_of_buildScalar h
  | .defaulted (.shape fields) default =>
      rcases Attempt.run_bind_eq_some_iff.mp h with ⟨_, _, ⟨⟩⟩ | ⟨rules, _, hrules, hrule⟩
      cases hrule
      rw [descriptor, descriptors_of_buildFields fields hrules, describedWith]
  | .defaulted (.defaulted _ _) _ => cases of_report_run h

theorem descriptors_of_buildFields (fields : List (String × Descriptor))
    {registry built : Registry σ} {rules : List (String × Rule)}
    (h : (buildFields answers fields).run registry = some (.ok rules, built)) :
    descriptors rules = fields := by
  match fields with
  | [] =>
      cases h
      rfl
  | (key, field) :: rest =>
      rcases Attempt.run_bind_eq_some_iff.mp h with ⟨_, _, ⟨⟩⟩ | ⟨rule, _, hrule, hmore⟩
      rcases Attempt.run_bind_eq_some_iff.mp hmore with ⟨_, _, ⟨⟩⟩ | ⟨others, _, hothers, heq⟩
      cases heq
      rw [descriptors, descriptor_of_build field hrule, descriptors_of_buildFields rest hothers]

end

open Descriptor (ofValue Occurs)

/-- A descriptor that was read from a value is refused for nothing but a blank type text, and the
fault shows the text. -/
theorem exists_blank_of_build_error {v : Value} {d : Descriptor} (hread : ofValue v = .ok d)
    {registry built : Registry σ} {fault : Fault}
    (h : (build answers d).run registry = some (.error fault, built)) :
    ∃ source, Occurs (.type source) d ∧ Text.isBlankText source = true ∧
      fault = .invalidRule (Descriptor.type source).display := by
  obtain ⟨bad, hrefused, rfl⟩ :=
    Option.map_eq_some_iff.mp ((build_meets answers d).of_run_error h)
  obtain ⟨hoccurs, ⟨source, rfl, hblank⟩ | ⟨inner, first, second, rfl⟩⟩ :=
    Descriptor.of_refused? d hrefused
  · exact ⟨source, hoccurs, hblank, rfl⟩
  · exact absurd hoccurs ((Descriptor.of_ofValue v hread).2 inner first second)

/-- Values are read by the grammar of descriptions, and what is read gives the value back. Rules are
built of the descriptors with no default in a default and no blank type text; of these two, only
the second can be wanting in a descriptor that was read. And every rule is shown as the descriptor
that it was built of. -/
theorem described_exactly (answers : Answers σ) (registry : Registry σ) :
    (∀ v, (∃ d, ofValue v = .ok d) ↔ v.Describes) ∧
    (∀ v d, ofValue v = .ok d ↔ d.toValue = v ∧ d.SingleDefaults) ∧
    (∀ d, (∃ rule built, (build answers d).run registry = some (.ok rule, built)) ↔
      d.SingleDefaults ∧ d.Legible) ∧
    (∀ v d, ofValue v = .ok d →
      ((∃ rule built, (build answers d).run registry = some (.ok rule, built)) ↔ d.Legible) ∧
      ∀ fault built, (build answers d).run registry = some (.error fault, built) →
        ∃ source, Occurs (.type source) d ∧ Text.isBlankText source = true ∧
          fault = .invalidRule (Descriptor.type source).display) ∧
    ∀ d rule built, (build answers d).run registry = some (.ok rule, built) →
      rule.display = d.display := by
  have hbuild (d : Descriptor) :
      (∃ rule built, (build answers d).run registry = some (.ok rule, built)) ↔
        d.SingleDefaults ∧ d.Legible :=
    (exists_build_iff answers d registry).trans d.refused?_eq_none_iff
  refine ⟨Descriptor.exists_ofValue_iff, fun v d => Descriptor.ofValue_eq_ok_iff, hbuild,
    fun v d hread => ⟨?_, fun fault built => exists_blank_of_build_error hread⟩,
    fun d rule built h => ?_⟩
  · rw [hbuild, and_iff_right (Descriptor.of_ofValue v hread).2]
  · rw [← display_descriptor, descriptor_of_build d h]

/-- A shape with a default in a field and a default of its own. -/
theorem described_exactly_record :
    let v := Value.array [.object [("someNumber", .array [.string "number", .number .zero]),
      ("someString", .string "string")], .null]
    ∃ d rule built, ofValue v = .ok d ∧ d.toValue = v ∧
      (build .exceeded d).run (.new .standard ()) = some (.ok rule, built) ∧
      rule.display = d.display := by
  intro v
  obtain ⟨_, hexact, _, hread, hshown⟩ := described_exactly .exceeded (.new .standard ())
  let d : Descriptor := .defaulted (.shape [("someNumber", .defaulted (.type "number")
    (.number .zero)), ("someString", .type "string")]) .null
  have hd : ofValue v = .ok d := rfl
  have hlegible : d.Legible := by
    simp [d, Descriptor.legible_defaulted, Descriptor.legible_shape, Descriptor.legible_type,
      Text.isBlankText, Text.isBlank]
  obtain ⟨rule, built, hrun⟩ := (hread v d hd).1.mpr hlegible
  exact ⟨d, rule, built, hd, ((hexact v d).mp hd).1, hrun, hshown d rule built hrun⟩

end Rule

end Switchboard
