import CertifiedCalls.Proofs.Codec.RoundTrip

/-! # Sendable values
A value is **sendable** by a schema when its octets are decoded to just this value, in either layout
(`Schema.Sendable.decode`). Sendable values are put together like their schemas: a record that is
gathered from pairs is sendable when what stands in the pairs is (`Schema.Sendable.record`). -/

namespace CertifiedCalls

open MessagePack (Item)
open MessagePack.Item (AllShort EntriesShort depthOfItems depthOfEntries)

namespace Value

variable {pairs : List (String × Value)}

/-- A gathered record tells of each name what the pairs tell, unless it is nothing. -/
theorem get?_recordOf (distinct : (Fields.names pairs).Nodup) (name : String) :
    (recordOf pairs).get? name = (Fields.get? name pairs).filter fun v => !v.isNull := by
  have kept_distinct : (Fields.names (pairs.filter fun pair => !pair.2.isNull)).Nodup :=
    distinct.sublist (List.filter_sublist.map _)
  rw [recordOf, get?, Fields.get?_ofList kept_distinct]
  exact Fields.get?_filter (fun v => !v.isNull) distinct name

/-- What a gathered record holds is among the pairs, and is not nothing. -/
theorem mem_of_mem_recordOf {field : String × Value}
    (h : field ∈ Fields.ofList (pairs.filter fun pair => !pair.2.isNull)) :
    field ∈ pairs ∧ field.2.isNull = false := by
  obtain ⟨mem, kept⟩ := List.mem_filter.mp (Fields.mem_of_mem_ofList h)
  exact ⟨mem, by simpa using kept⟩

end Value

/-- An item is **readable** within a depth when it is short and no deeper. -/
def MessagePack.Item.Readable (d : Nat) (item : Item) : Prop := item.Short ∧ item.depth ≤ d

/-- The item of a natural number is readable: its decimal text has at most 39 digits. -/
theorem Value.readable_natItem {n : Nat} (bound : n < Value.natBound) : (natItem n).Readable 0 := by
  rw [natItem]
  split
  · exact ⟨trivial, Nat.le_refl _⟩
  · have digits : (Nat.toDigits 10 n).length ≤ 39 :=
      (Nat.length_toDigits_le_iff (by decide) (by decide)).mpr (Nat.lt_trans bound (by decide))
    have octets := Bytes.length_ofText_ofList_le (Nat.toDigits 10 n)
    refine ⟨?_, Nat.le_refl _⟩
    show (Bytes.ofText (String.ofList (Nat.toDigits 10 n))).length < 4294967296
    omega

namespace Schema

variable {fields : List (String × Schema)} {present : Fields Value} {layout : Layout} {d : Nat}

/-- The fields of a record that are present are readable. -/
def FieldsReadable (layout : Layout) (d : Nat) (fields : List (String × Schema))
    (present : Fields Value) : Prop :=
  ∀ field ∈ fields, ∀ v, Fields.get? field.1 present = some v →
    (toItem layout field.2 v).Readable d

/-- The items of readable fields by position. -/
theorem readable_positionalItems (each : FieldsReadable layout d fields present) :
    (positionalItems layout fields present).length ≤ fields.length ∧
      AllShort (positionalItems layout fields present) ∧
      depthOfItems (positionalItems layout fields present) ≤ d := by
  induction fields with
  | nil => exact ⟨Nat.le_refl _, trivial, Nat.zero_le _⟩
  | cons first rest ih =>
    obtain ⟨name, schema⟩ := first
    obtain ⟨length, short, depth⟩ := ih fun field mem => each field (List.mem_cons_of_mem _ mem)
    have onwards {item : Item} (readable : item.Readable d) (last : Bool) :
        let items := if last then [] else item :: positionalItems layout rest present
        items.length ≤ rest.length + 1 ∧ AllShort items ∧ depthOfItems items ≤ d := by
      cases last with
      | true => exact ⟨Nat.zero_le _, trivial, Nat.zero_le _⟩
      | false =>
        exact ⟨Nat.succ_le_succ length, ⟨readable.1, short⟩, Nat.max_le.mpr ⟨readable.2, depth⟩⟩
    rw [positionalItems]
    cases found : Fields.get? name present with
    | none =>
      have nothing : Item.nil.Readable d := ⟨trivial, Nat.zero_le _⟩
      exact onwards nothing _
    | some v => exact onwards (each (name, schema) List.mem_cons_self v found) _

/-- The entries of readable fields by name. -/
theorem readable_namedEntries (names : ∀ field ∈ fields, (Bytes.ofText field.1).length < 4294967296)
    (each : FieldsReadable layout d fields present) :
    (namedEntries layout fields present).length ≤ fields.length ∧
      EntriesShort (namedEntries layout fields present) ∧
      depthOfEntries (namedEntries layout fields present) ≤ d := by
  induction fields with
  | nil => exact ⟨Nat.le_refl _, trivial, Nat.zero_le _⟩
  | cons first rest ih =>
    obtain ⟨name, schema⟩ := first
    rw [List.forall_mem_cons] at names
    obtain ⟨length, short, depth⟩ := ih names.2 fun field mem =>
      each field (List.mem_cons_of_mem _ mem)
    have skipped := Nat.le_succ_of_le length
    rw [namedEntries]
    cases found : Fields.get? name present with
    | none => exact ⟨skipped, short, depth⟩
    | some v =>
      simp only
      split
      · exact ⟨skipped, short, depth⟩
      · obtain ⟨v_short, v_depth⟩ := each (name, schema) List.mem_cons_self v found
        refine ⟨Nat.succ_le_succ length, ⟨names.1, v_short, short⟩, ?_⟩
        exact Nat.max_le.mpr ⟨Nat.max_le.mpr ⟨Nat.zero_le _, v_depth⟩, depth⟩

/-- **A record is readable** when its fields are. -/
theorem readable_record (few : fields.length < 4294967296)
    (names : ∀ field ∈ fields, (Bytes.ofText field.1).length < 4294967296)
    (each : FieldsReadable layout d fields present) :
    (toItem layout (.record fields) (.record present)).Readable (d + 1) := by
  cases layout with
  | positional =>
    obtain ⟨length, short, depth⟩ := readable_positionalItems each
    exact ⟨⟨Nat.lt_of_le_of_lt length few, short⟩, Nat.succ_le_succ depth⟩
  | named =>
    obtain ⟨length, short, depth⟩ := readable_namedEntries names each
    exact ⟨⟨Nat.lt_of_le_of_lt length few, short⟩, Nat.succ_le_succ depth⟩

/-- What is decoded is accepted. -/
theorem check_eq_none_of_decode {schema : Schema} {octets : Bytes} {v : Value}
    (h : schema.decode octets = .ok v) : schema.check v = none := by
  obtain ⟨_, -, -, accepted⟩ := decode_eq_ok_iff.mp h
  exact accepted

/-! ### Sendable values -/

/-- Nothing is plain. -/
theorem plainAt_null (schema : Schema) : schema.PlainAt .null := by
  induction schema with
  | optional inner ih => exact ih
  | _ => trivial

/-- Nothing is exact. -/
theorem exact_null (schema : Schema) : schema.Exact .null := by
  induction schema with
  | optional inner ih => exact ih
  | _ => trivial

/-- A value is **sendable** by a schema within a depth. -/
structure Sendable (schema : Schema) (v : Value) (d : Nat) : Prop where
  /-- The schema names no field twice. -/
  distinct : schema.Distinct
  /-- The value is well formed. -/
  formed : v.WellFormed
  /-- The schema accepts it. -/
  accepted : schema.check v = none
  /-- What the schema does not describe is plain. -/
  plain : schema.PlainAt v
  /-- It carries just what the schema describes. -/
  exact : schema.Exact v
  /-- It is readable in either layout. -/
  readable : ∀ layout, (schema.toItem layout v).Readable d

namespace Sendable

variable {schema inner element : Schema} {v : Value} {width : NatWidth}

/-- The octets of a sendable value are **decoded to this value**. -/
theorem decode (h : schema.Sendable v d) (shallow : d ≤ 500) {octets : Bytes}
    (encoded : schema.encode layout v = .ok octets) : schema.decode octets = .ok v := by
  obtain ⟨short, depth⟩ := h.readable layout
  have readable : schema.CanBeRead layout v := ⟨short, Nat.le_trans depth shallow⟩
  rw [encode_of_accepted h.accepted] at encoded
  obtain rfl := Except.ok.inj encoded
  rw [(Shares.refl h.distinct).decode_write h.formed h.plain h.accepted readable,
    normal_of_exact h.exact]

/-- A sendable value is sendable within a greater depth. -/
theorem mono {d' : Nat} (h : schema.Sendable v d) (le : d ≤ d') : schema.Sendable v d' :=
  { h with readable := fun layout => ⟨(h.readable layout).1, Nat.le_trans (h.readable layout).2 le⟩ }

/-- An accepted scalar is sendable when its item is readable. -/
theorem ofScalar (scalar : schema.isScalar = true) (some : schema ≠ .any) (formed : v.WellFormed)
    (accepted : schema.check v = none) (readable : v.toItem.Readable 0) : schema.Sendable v d := by
  cases schema with
  | any => exact absurd rfl some
  | array | optional | record | variant => cases scalar
  | _ => exact .mono ⟨trivial, formed, accepted, trivial, trivial, fun _ => readable⟩ (Nat.zero_le d)

/-- A natural number that its width allows is sendable. -/
theorem number {n : Nat} (le : n ≤ width.max) : (Schema.nat width).Sendable (.nat n) d := by
  have bound : n < Value.natBound := by
    refine Nat.lt_of_le_of_lt le ?_
    cases width <;> decide
  exact .ofScalar rfl nofun bound (if_pos le) (Value.readable_natItem bound)

/-- A short text is sendable. -/
theorem text {s : String} (short : (Bytes.ofText s).length < 4294967296) :
    Schema.text.Sendable (.text s) d :=
  .ofScalar rfl nofun trivial rfl ⟨short, Nat.le_refl _⟩

/-- A short byte string is sendable, if it has the length that the schema tells. -/
theorem bytes {length : Option Nat} {octets : Bytes}
    (accepted : (Schema.bytes length).check (.bytes octets) = none)
    (short : octets.length < 4294967296) : (Schema.bytes length).Sendable (.bytes octets) d :=
  .ofScalar rfl nofun trivial accepted ⟨short, Nat.le_refl _⟩

/-- A sequence of few sendable values is sendable. -/
theorem array {items : List Value} (distinct : element.Distinct) (few : items.length < 4294967296)
    (each : ∀ v ∈ items, element.Sendable v d) :
    (Schema.array element).Sendable (.array items) (d + 1) where
  distinct := distinct
  formed := by
    induction items with
    | nil => trivial
    | cons v rest ih =>
      rw [List.forall_mem_cons] at each
      exact ⟨each.1.formed, ih (Nat.lt_of_succ_lt few) each.2⟩
  accepted := check_array_eq_none_iff.mpr fun v mem => (each v mem).accepted
  plain v mem := (each v mem).plain
  exact v mem := (each v mem).exact
  readable layout := by
    have all : AllShort (items.map fun v => toItem layout element v) ∧
        depthOfItems (items.map fun v => toItem layout element v) ≤ d := by
      clear few
      induction items with
      | nil => exact ⟨trivial, Nat.zero_le _⟩
      | cons v rest ih =>
        rw [List.forall_mem_cons] at each
        obtain ⟨short, depth⟩ := each.1.readable layout
        obtain ⟨all_short, all_depth⟩ := ih each.2
        exact ⟨⟨short, all_short⟩, Nat.max_le.mpr ⟨depth, all_depth⟩⟩
    exact ⟨⟨by rw [List.length_map]; exact few, all.1⟩, Nat.succ_le_succ all.2⟩

/-- A value that may be missing is sendable. -/
theorem ofPresent (h : inner.Sendable v d) : (Schema.optional inner).Sendable v d where
  distinct := h.distinct
  formed := h.formed
  accepted := check_optional_eq_none_iff.mpr (.inr h.accepted)
  plain := h.plain
  exact := h.exact
  readable layout := by
    rw [toItem]
    split
    · exact ⟨trivial, Nat.zero_le _⟩
    · exact h.readable layout

/-- So is a missing one. -/
theorem ofAbsent (distinct : inner.Distinct) : (Schema.optional inner).Sendable .null d :=
  ⟨distinct, trivial, rfl, plainAt_null inner, exact_null inner, fun _ => ⟨trivial, Nat.zero_le d⟩⟩

/-- A tag without a payload is sendable. -/
theorem ofTag {cases : List (String × Option Schema)} {tag : String} (distinct : CasesDistinct cases)
    (found : findCase tag cases = some none) (short : (Bytes.ofText tag).length < 4294967296) :
    (Schema.variant cases).Sendable (.variant tag none) d :=
  ⟨distinct, trivial, check_variant_eq_none_iff.mpr ⟨none, found, trivial⟩, trivial, trivial,
    fun _ => ⟨short, Nat.zero_le d⟩⟩

/-- A tag with a sendable payload is sendable. -/
theorem ofPayload {cases : List (String × Option Schema)} {tag : String}
    (distinct : CasesDistinct cases) (found : findCase tag cases = some (some inner))
    (short : (Bytes.ofText tag).length < 4294967296) (h : inner.Sendable v d) :
    (Schema.variant cases).Sendable (.variant tag (some v)) (d + 1) where
  distinct := distinct
  formed := h.formed
  accepted := check_variant_eq_none_iff.mpr ⟨some inner, found, h.accepted⟩
  plain := (payloadPlainAt_iff found).mpr h.plain
  exact := (exactPayload_iff found).mpr h.exact
  readable layout := by
    obtain ⟨payload_short, depth⟩ := h.readable layout
    rw [toItem, payloadItem_of_findCase layout found]
    have one : (1 : Nat) < 4294967296 := by decide
    exact ⟨⟨one, short, payload_short, trivial⟩,
      Nat.succ_le_succ (Nat.max_le.mpr ⟨Nat.max_le.mpr ⟨Nat.zero_le _, depth⟩, Nat.zero_le _⟩)⟩

end Sendable

/-- Pairs **match** the fields of a record one by one: they have the names of the fields, what stands in
them is sendable, and only what may be missing is nothing. -/
inductive Matching (d : Nat) : List (String × Schema) → List (String × Value) → Prop
  /-- There are no fields. -/
  | nil : Matching d [] []
  /-- One more field. -/
  | cons {name : String} {schema : Schema} {v : Value} {fields : List (String × Schema)}
    {pairs : List (String × Value)} (sendable : schema.Sendable v d)
    (missing : v.isNull = true → schema.isOptional = true) (rest : Matching d fields pairs) :
    Matching d ((name, schema) :: fields) ((name, v) :: pairs)

namespace Matching

variable {pairs : List (String × Value)}

/-- Pairs have the names of the fields that they match. -/
theorem names_eq (h : Matching d fields pairs) : Fields.names pairs = Fields.names fields := by
  induction h with
  | nil => rfl
  | cons _ _ _ ih => rw [Fields.names_cons, Fields.names_cons, ih]

/-- Each pair has its field. -/
theorem exists_field (h : Matching d fields pairs) {pair : String × Value} (mem : pair ∈ pairs) :
    ∃ schema, (pair.1, schema) ∈ fields ∧ schema.Sendable pair.2 d := by
  induction h with
  | nil => exact absurd mem List.not_mem_nil
  | @cons name schema _ _ _ sendable _ _ ih =>
    rcases List.mem_cons.mp mem with rfl | later
    · exact ⟨schema, List.mem_cons_self, sendable⟩
    · obtain ⟨schema, found, sendable⟩ := ih later
      exact ⟨schema, List.mem_cons_of_mem _ found, sendable⟩

/-- Each field has its pair. -/
theorem exists_pair (h : Matching d fields pairs) {name : String} {schema : Schema}
    (mem : (name, schema) ∈ fields) : ∃ v, (name, v) ∈ pairs ∧ schema.Sendable v d ∧
      (v.isNull = true → schema.isOptional = true) := by
  induction h with
  | nil => exact absurd mem List.not_mem_nil
  | @cons _ _ v _ _ sendable missing _ ih =>
    rcases List.mem_cons.mp mem with e | later
    · obtain ⟨rfl, rfl⟩ := Prod.mk.inj e
      exact ⟨v, List.mem_cons_self, sendable, missing⟩
    · obtain ⟨v, found, sendable, missing⟩ := ih later
      exact ⟨v, List.mem_cons_of_mem _ found, sendable, missing⟩

/-- What a gathered record holds in a field. -/
theorem field (h : Matching d fields pairs) (distinct : (Fields.names fields).Nodup) {name : String}
    {schema : Schema} (mem : (name, schema) ∈ fields) :
    ∃ v, (Value.recordOf pairs).get? name = (some v).filter (fun v => !v.isNull) ∧
      schema.Sendable v d ∧ (v.isNull = true → schema.isOptional = true) := by
  rw [← h.names_eq] at distinct
  obtain ⟨v, here, sendable, missing⟩ := h.exists_pair mem
  refine ⟨v, ?_, sendable, missing⟩
  rw [Value.get?_recordOf distinct, Fields.get?_eq_some_of_mem distinct here]

end Matching

/-- Fields whose schemas take what is plain in them. -/
theorem fieldsPlainAt_of_forall (each : ∀ field ∈ fields, ∀ v, Fields.get? field.1 present = some v →
    PlainAt field.2 v) : FieldsPlainAt fields present := by
  induction fields with
  | nil => trivial
  | cons first rest ih =>
    rw [List.forall_mem_cons] at each
    exact ⟨each.1, ih each.2⟩

/-- A field that the schema names is exact when what stands in it is, and is not nothing where it may
be missing. -/
theorem exactField_of_mem (distinct : (Fields.names fields).Nodup) {name : String} {schema : Schema}
    (mem : (name, schema) ∈ fields) {v : Value} (kept : (v.isNull && schema.isOptional) = false)
    (exact : Exact schema v) : ExactField fields name v := by
  induction fields with
  | nil => exact absurd mem List.not_mem_nil
  | cons first rest ih =>
    obtain ⟨key, s⟩ := first
    rw [Fields.names_cons, List.nodup_cons] at distinct
    rw [ExactField]
    rcases List.mem_cons.mp mem with e | later
    · obtain ⟨rfl, rfl⟩ := Prod.mk.inj e
      rw [if_pos rfl]
      exact ⟨kept, exact⟩
    · have other : key ≠ name := by
        rintro rfl
        exact distinct.1 (List.mem_map_of_mem later)
      rw [if_neg other]
      exact ih distinct.2 later

/-- Fields are well formed when what stands in each is. -/
theorem fieldsWellFormed_of_forall (each : ∀ field ∈ present, field.2.WellFormed) :
    Value.FieldsWellFormed present := by
  induction present with
  | nil => trivial
  | cons first rest ih =>
    rw [List.forall_mem_cons] at each
    exact ⟨each.1, ih each.2⟩

/-- **A record is sendable** when it is accepted and each of its fields is sendable by the schema of
the field, and not nothing where it may be missing. -/
theorem Sendable.ofFields (distinct : (Schema.record fields).Distinct)
    (few : fields.length < 4294967296)
    (names : ∀ field ∈ fields, (Bytes.ofText field.1).length < 4294967296)
    (ordered : Fields.Ordered present)
    (accepted : check (.record fields) (.record present) = none)
    (each : ∀ name v, (name, v) ∈ present → ∃ schema, (name, schema) ∈ fields ∧
      schema.Sendable v d ∧ (v.isNull && schema.isOptional) = false) :
    (Schema.record fields).Sendable (.record present) (d + 1) := by
  -- What the record holds in a field is sendable by the schema of the field.
  have held (field : String × Schema) (mem : field ∈ fields) (v : Value)
      (found : Fields.get? field.1 present = some v) : field.2.Sendable v d := by
    obtain ⟨schema, mem', sendable, _⟩ := each field.1 v (Fields.mem_of_get?_eq_some found)
    have same := Fields.get?_eq_some_of_mem distinct.1 mem
    rw [Fields.get?_eq_some_of_mem distinct.1 mem'] at same
    exact Option.some.inj same ▸ sendable
  refine ⟨distinct, ⟨ordered, ?_⟩, accepted, ?_, ?_, fun layout => ?_⟩
  · refine fieldsWellFormed_of_forall fun field mem => ?_
    obtain ⟨_, _, sendable, _⟩ := each field.1 field.2 mem
    exact sendable.formed
  · exact fieldsPlainAt_of_forall fun field mem v found => (held field mem v found).plain
  · intro field mem
    obtain ⟨schema, mem', sendable, kept⟩ := each field.1 field.2 mem
    exact exactField_of_mem distinct.1 mem' kept sendable.exact
  · exact readable_record few names fun field mem v found => (held field mem v found).readable layout

/-- **A record is sendable** when it is gathered from pairs that match its fields. -/
theorem Sendable.record {pairs : List (String × Value)} (matching : Matching d fields pairs)
    (distinct : (Fields.names fields).Nodup) (few : fields.length < 4294967296)
    (names : ∀ field ∈ fields, (Bytes.ofText field.1).length < 4294967296) :
    (Schema.record fields).Sendable (.recordOf pairs) (d + 1) := by
  have all_distinct : FieldsDistinct fields := by
    clear distinct few names
    induction matching with
    | nil => trivial
    | cons sendable _ _ ih => exact ⟨sendable.distinct, ih⟩
  refine .ofFields ⟨distinct, all_distinct⟩ few names (Fields.ordered_ofList _) ?_ fun name v mem => ?_
  · refine check_record_eq_none_iff.mpr fun name schema mem => ?_
    obtain ⟨v, told, sendable, missing⟩ := matching.field distinct mem
    show FieldAccepted schema ((Value.recordOf pairs).get? name)
    rw [told]
    cases null : v.isNull with
    | true =>
      simp only [Option.filter, null]
      exact missing null
    | false =>
      simp only [Option.filter, null]
      exact sendable.accepted
  · obtain ⟨here, there⟩ := Value.mem_of_mem_recordOf mem
    obtain ⟨schema, found, sendable⟩ := matching.exists_field here
    exact ⟨schema, found, sendable, by rw [there, Bool.false_and]⟩

end Schema

end CertifiedCalls
