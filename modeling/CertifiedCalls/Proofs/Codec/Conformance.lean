import CertifiedCalls.Codec.Conform
import CertifiedCalls.Codec.Layout
import CertifiedCalls.Proofs.Codec.Versions

/-! # Conforming what was laid out
A value that a version of a schema accepts is laid out, read without the schema and conformed to
another version. What comes of it is the normal form of the value under the schema that the two share,
in either layout (`Shares.conform_ofItem_toItem`). Where the schema takes anything nothing is
conformed, and the value has to be **plain**, of a kind that its item shows. -/

namespace CertifiedCalls

open MessagePack (Item)

namespace Value

mutual

/-- A value is **plain** when its item shows its kind: its naturals have 64 bits, its integers are
negative, and it has no tags. -/
def Plain : Value → Prop
  | .nat n => n < 18446744073709551616
  | .int i => i.toInt < 0
  | .array items => AllPlain items
  | .record fields => FieldsPlain fields
  | .variant _ _ => False
  | _ => True

/-- All values are plain. -/
def AllPlain : List Value → Prop
  | [] => True
  | v :: rest => v.Plain ∧ AllPlain rest

/-- The values of all fields are plain. -/
def FieldsPlain : List (String × Value) → Prop
  | [] => True
  | (_, v) :: rest => v.Plain ∧ FieldsPlain rest

end

/-- Naturals of 64 bits go as integers. -/
theorem ofItem_natItem {n : Nat} (short : n < 18446744073709551616) :
    ofItem (natItem n) = .nat n := by
  rw [natItem, if_pos short, ofItem, if_pos (Int.natCast_nonneg n), Int.toNat_natCast]

mutual

/-- A plain value is read back from its item without a schema. -/
theorem ofItem_toItem_of_plain (v : Value) (plain : v.Plain) (formed : v.WellFormed) :
    ofItem v.toItem = v := by
  cases v with
  | null => rfl
  | bool b => rfl
  | nat n => exact ofItem_natItem plain
  | int i =>
    have negative : ¬ 0 ≤ i.toInt := Int.not_le.mpr plain
    rw [toItem, ofItem, if_neg negative, Int64.ofInt_toInt]
  | float x => rfl
  | text s => rfl
  | bytes octets => rfl
  | array items => rw [toItem, ofItem, ofItems_toItems items plain formed]
  | record fields =>
    rw [toItem, ofItem, ofEntries_toEntries fields plain formed.2,
      Fields.ofList_of_ordered formed.1]
  | variant tag payload => exact plain.elim

/-- Plain values are read back from their items. -/
theorem ofItems_toItems (items : List Value) (plain : AllPlain items)
    (formed : AllWellFormed items) : ofItems (toItems items) = items := by
  match items, plain, formed with
  | [], _, _ => rfl
  | v :: rest, ⟨plain, rest_plain⟩, ⟨formed, rest_formed⟩ =>
    rw [toItems, ofItems, ofItem_toItem_of_plain v plain formed,
      ofItems_toItems rest rest_plain rest_formed]

/-- Fields with plain values are read back from their entries. -/
theorem ofEntries_toEntries (fields : List (String × Value)) (plain : FieldsPlain fields)
    (formed : FieldsWellFormed fields) : ofEntries (toEntries fields) = fields := by
  match fields, plain, formed with
  | [], _, _ => rfl
  | (name, v) :: rest, ⟨plain, rest_plain⟩, ⟨formed, rest_formed⟩ =>
    rw [toEntries, ofEntries, ofItem_toItem_of_plain v plain formed,
      ofEntries_toEntries rest rest_plain rest_formed]
    rfl

end

/-- Reading items one by one. -/
theorem ofItems_eq_map (items : List Item) : ofItems items = items.map ofItem := by
  induction items with
  | nil => rfl
  | cons item rest ih => rw [ofItems, ih, List.map_cons]

/-- Only null goes as nil. -/
theorem isNil_toItem (v : Value) : v.toItem.isNil = v.isNull := by
  cases v with
  | nat n =>
    rw [toItem, natItem]
    split <;> rfl
  | variant tag payload => cases payload <;> rfl
  | _ => rfl

/-- Only null is read back as null. -/
theorem isNull_ofItem_toItem (v : Value) : (ofItem v.toItem).isNull = v.isNull := by
  cases v with
  | nat n =>
    rw [toItem, natItem]
    split
    · rw [ofItem, if_pos (Int.natCast_nonneg n)]
      rfl
    · rfl
  | int i =>
    rw [toItem, ofItem]
    split <;> rfl
  | variant tag payload => cases payload <;> rfl
  | _ => rfl

end Value

namespace Schema

/-! ### Null -/

/-- Only null is laid out as nil. -/
theorem isNil_toItem (layout : Layout) (schema : Schema) (v : Value) :
    (toItem layout schema v).isNil = v.isNull := by
  induction schema generalizing v with
  | any | null | bool | nat | int | float | text | bytes => exact v.isNil_toItem
  | array element =>
    cases v with
    | array items => rfl
    | _ => exact Value.isNil_toItem _
  | optional inner ih =>
    rw [toItem]
    cases null : v.isNull with
    | true => rfl
    | false => exact (ih v).trans null
  | record fields =>
    cases v with
    | record present => cases layout <;> rfl
    | _ => exact Value.isNil_toItem _
  | variant cases =>
    cases v with
    | variant tag payload => cases payload <;> rfl
    | _ => exact Value.isNil_toItem _

/-- Only null is read back as null. -/
theorem isNull_ofItem_toItem (layout : Layout) (schema : Schema) (v : Value) :
    (Value.ofItem (toItem layout schema v)).isNull = v.isNull := by
  induction schema generalizing v with
  | any | null | bool | nat | int | float | text | bytes => exact v.isNull_ofItem_toItem
  | array element =>
    cases v with
    | array items => rfl
    | _ => exact Value.isNull_ofItem_toItem _
  | optional inner ih =>
    rw [toItem]
    cases null : v.isNull with
    | true => rfl
    | false => exact (ih v).trans null
  | record fields =>
    cases v with
    | record present => cases layout <;> rfl
    | _ => exact Value.isNull_ofItem_toItem _
  | variant cases =>
    cases v with
    | variant tag payload => cases payload <;> rfl
    | _ => exact Value.isNull_ofItem_toItem _

/-! ### Numerals -/

/-- A large natural number is read back from its decimal text. -/
theorem natOfText_toString {n : Nat} (bound : n < Value.natBound) :
    natOfText (toString n) = .nat n := by
  -- The text is read digit by digit; a leading plus sign, which would be skipped, is no digit.
  have digits : (toString n).toList = Nat.toDigits 10 n := Nat.toList_repr
  have digit : ∀ c ∈ Nat.toDigits 10 n, c.isDigit := fun c mem =>
    Nat.isDigit_of_mem_toDigits (by decide) (by decide) mem
  have number : Text.natOfDigits? (Nat.toDigits 10 n) = some n := by
    have all : Nat.toDigits 10 n ≠ [] ∧ (Nat.toDigits 10 n).all Char.isDigit :=
      ⟨Nat.toDigits_ne_nil, List.all_eq_true.mpr digit⟩
    rw [Text.natOfDigits?, if_pos all]
    have value : Nat.ofDigitChars 10 (Nat.toDigits 10 n) 0 = n := Nat.ofDigitChars_ten_toDigits
    simp only [Nat.ofDigitChars_eq_foldl, Nat.mul_comm 10] at value
    exact congrArg some value
  have whole : Text.natOfText? (toString n) = some n := by
    rw [Text.natOfText?, digits]
    split
    · rename_i cs eq
      exact absurd (digit '+' (eq ▸ List.mem_cons_self)) (by decide)
    · exact number
  rw [natOfText, whole]
  exact if_pos bound

/-! ### Positions of any kind of value -/

mutual

/-- What stands where a schema takes anything is plain. -/
def PlainAt : Schema → Value → Prop
  | .any, v => v.Plain
  | .array element, .array items => ∀ v ∈ items, PlainAt element v
  | .optional inner, v => PlainAt inner v
  | .record fields, .record present => FieldsPlainAt fields present
  | .variant cases, .variant tag (some payload) => PayloadPlainAt cases tag payload
  | _, _ => True

/-- What stands in the fields where their schemas take anything is plain. -/
def FieldsPlainAt : List (String × Schema) → Fields Value → Prop
  | [], _ => True
  | (name, schema) :: rest, present =>
    (∀ v, Fields.get? name present = some v → PlainAt schema v) ∧ FieldsPlainAt rest present

/-- What stands in a payload where the first case of its tag takes anything is plain. -/
def PayloadPlainAt : List (String × Option Schema) → String → Value → Prop
  | [], _, _ => True
  | (t, some schema) :: rest, tag, payload =>
    if t = tag then PlainAt schema payload else PayloadPlainAt rest tag payload
  | (t, none) :: rest, tag, payload => if t = tag then True else PayloadPlainAt rest tag payload

end

theorem FieldsPlainAt.of_mem {fields : List (String × Schema)} {present : Fields Value}
    {name : String} {schema : Schema} {v : Value} (h : FieldsPlainAt fields present)
    (mem : (name, schema) ∈ fields) (found : Fields.get? name present = some v) :
    PlainAt schema v := by
  induction fields with
  | nil => exact absurd mem List.not_mem_nil
  | cons first rest ih =>
    obtain ⟨here, later⟩ := h
    rcases List.mem_cons.mp mem with rfl | mem
    · exact here v found
    · exact ih later mem

/-- A payload is plain where its case takes anything. -/
theorem payloadPlainAt_iff {cases : List (String × Option Schema)} {tag : String}
    {schema : Schema} {payload : Value} (found : findCase tag cases = some (some schema)) :
    PayloadPlainAt cases tag payload ↔ PlainAt schema payload := by
  induction cases with
  | nil => simp [findCase] at found
  | cons first rest ih =>
    obtain ⟨t, inner⟩ := first
    rw [findCase] at found
    split at found
    · rename_i e
      obtain rfl := Option.some.inj found
      rw [PayloadPlainAt, if_pos e]
    · rename_i ne
      cases inner with
      | none => rw [PayloadPlainAt, if_neg ne, ih found]
      | some _ => rw [PayloadPlainAt, if_neg ne, ih found]

/-! ### Payloads -/

/-- The item of a payload under one more case. -/
theorem payloadItem_cons (layout : Layout) (t : String) (inner : Option Schema)
    (rest : List (String × Option Schema)) (tag : String) (payload : Value) :
    payloadItem layout ((t, inner) :: rest) tag payload
      = if t = tag then (match inner with
          | some schema => toItem layout schema payload
          | none => payload.toItem)
        else payloadItem layout rest tag payload := by cases inner <;> rfl

/-- The tagged value of a single entry under one more case. -/
theorem caseOf_cons (t : String) (inner : Option Schema) (rest : List (String × Option Schema))
    (tag : String) (payload : Value) :
    caseOf ((t, inner) :: rest) tag payload
      = if t = tag then (match inner with
          | some schema => .variant tag (some (conform schema payload))
          | none => .variant tag (if payload.isNull then none else some payload))
        else caseOf rest tag payload := by cases inner <;> rfl

/-- A payload is laid out by the first case of its tag. -/
theorem payloadItem_of_findCase (layout : Layout) {cases : List (String × Option Schema)}
    {tag : String} {schema : Schema} (found : findCase tag cases = some (some schema))
    (payload : Value) : payloadItem layout cases tag payload = toItem layout schema payload := by
  induction cases with
  | nil => simp [findCase] at found
  | cons first rest ih =>
    obtain ⟨t, inner⟩ := first
    rw [findCase] at found
    rw [payloadItem_cons]
    split at found
    · rename_i e
      obtain rfl := Option.some.inj found
      rw [if_pos e]
    · rename_i ne
      rw [if_neg ne, ih found]

/-- The first case of its tag says what a single entry stands for. -/
theorem caseOf_eq (cases : List (String × Option Schema)) (tag : String) (payload : Value) :
    caseOf cases tag payload = match findCase tag cases with
      | some (some schema) => .variant tag (some (conform schema payload))
      | some none => .variant tag (if payload.isNull then none else some payload)
      | none => .variant tag (some payload) := by
  induction cases with
  | nil => rfl
  | cons first rest ih =>
    obtain ⟨t, inner⟩ := first
    rw [caseOf_cons, findCase]
    split
    · cases inner <;> rfl
    · exact ih

/-- A payload is conformed by the first case of its tag. -/
theorem caseOf_of_findCase {cases : List (String × Option Schema)} {tag : String}
    {schema : Schema} (found : findCase tag cases = some (some schema)) (payload : Value) :
    caseOf cases tag payload = .variant tag (some (conform schema payload)) := by
  rw [caseOf_eq, found]

/-! ### Records -/

/-- The fields that a record carries, in the schema's order, each changed by a function that may
depend on its schema. -/
def carriedFields (change : Schema → Value → Value) (fields : List (String × Schema))
    (present : Fields Value) : List (String × Value) :=
  fields.filterMap fun field =>
    ((field.2.carried (Fields.get? field.1 present)).map (change field.2)).map (field.1, ·)

/-- One more field of the schema. -/
theorem carriedFields_cons (change : Schema → Value → Value) (name : String) (schema : Schema)
    (rest : List (String × Schema)) (present : Fields Value) :
    carriedFields change ((name, schema) :: rest) present
      = match schema.carried (Fields.get? name present) with
        | some v => (name, change schema v) :: carriedFields change rest present
        | none => carriedFields change rest present := by
  rw [carriedFields, List.filterMap_cons]
  cases schema.carried (Fields.get? name present) <;> rfl

/-- The carried fields of two records are the same when they are in every field of the schema. -/
theorem carriedFields_congr {f g : Schema → Value → Value} {fields : List (String × Schema)}
    {a b : Fields Value}
    (same : ∀ name schema, (name, schema) ∈ fields →
      (schema.carried (Fields.get? name a)).map (f schema)
        = (schema.carried (Fields.get? name b)).map (g schema)) :
    carriedFields f fields a = carriedFields g fields b := by
  induction fields with
  | nil => rfl
  | cons first rest ih =>
    obtain ⟨name, schema⟩ := first
    have later := ih fun n s mem => same n s (List.mem_cons_of_mem _ mem)
    have here := same name schema List.mem_cons_self
    rw [carriedFields, carriedFields, List.filterMap_cons, List.filterMap_cons]
    simp only [here]
    rw [carriedFields, carriedFields] at later
    rw [later]

/-- No name is repeated among carried fields when none is among the schema's. -/
theorem nodup_names_carriedFields {change : Schema → Value → Value}
    {fields : List (String × Schema)} (distinct : (Fields.names fields).Nodup)
    (present : Fields Value) : (Fields.names (carriedFields change fields present)).Nodup :=
  (Fields.names_filterMap_sublist
    (fun name (schema : Schema) => (schema.carried (Fields.get? name present)).map (change schema))
    fields).nodup distinct

/-- What the carried fields say of a name. -/
theorem get?_carriedFields (change : Schema → Value → Value) {fields : List (String × Schema)}
    (distinct : (Fields.names fields).Nodup) (present : Fields Value) (name : String) :
    Fields.get? name (carriedFields change fields present)
      = (Fields.get? name fields).bind fun schema =>
          (schema.carried (Fields.get? name present)).map (change schema) :=
  Fields.get?_filterMap
    (fun name (schema : Schema) => (schema.carried (Fields.get? name present)).map (change schema))
    distinct name

/-- What a record carries in a field of a name, changed by a function that may depend on its schema. -/
def carriedField (change : Schema → Value → Value) (fields : List (String × Schema)) (name : String)
    (v : Value) : Option Value :=
  (Fields.get? name fields).bind fun schema => (schema.carried (some v)).map (change schema)

/-- What a record in order carries stands in its own order. -/
theorem ofList_carriedFields (change : Schema → Value → Value) {fields : List (String × Schema)}
    {present : Fields Value} (distinct : (Fields.names fields).Nodup)
    (ordered : Fields.Ordered present) :
    Fields.ofList (carriedFields change fields present)
      = present.filterMap fun field =>
          (carriedField change fields field.1 field.2).map (field.1, ·) := by
  -- Both sides are in order, so it is enough that they say the same of every name.
  refine (Fields.ordered_ofList _).ext (ordered.filterMap _) fun name => ?_
  rw [Fields.get?_ofList (nodup_names_carriedFields distinct present),
    get?_carriedFields change distinct, Fields.get?_filterMap _ ordered.nodup_names]
  cases Fields.get? name present with
  | none => cases Fields.get? name fields <;> rfl
  | some v => rfl

/-- The normal form of a field is that of what it carries. -/
theorem carriedField_normal {fields : List (String × Schema)}
    (distinct : (Fields.names fields).Nodup) (name : String) (v : Value) :
    carriedField normal fields name v = normalField fields name v := by
  rw [carriedField]
  cases found : Fields.get? name fields with
  | some schema =>
    rw [Option.bind_some, normalField_of_mem distinct (Fields.mem_of_get?_eq_some found)]
  | none =>
    rw [Option.bind_none, normalField_of_not_mem (Fields.not_mem_names_of_get?_eq_none found)]

/-- The normal form of a record gathers the normal forms of what its fields carry. -/
theorem ofList_carriedFields_normal {fields : List (String × Schema)} {present : Fields Value}
    (distinct : (Fields.names fields).Nodup) (ordered : Fields.Ordered present) :
    Fields.ofList (carriedFields normal fields present)
      = present.filterMap fun field =>
          (normalField fields field.1 field.2).map (field.1, ·) := by
  rw [ofList_carriedFields normal distinct ordered]
  simp only [carriedField_normal distinct]

/-- A record that is read by name is conformed field by field. -/
theorem fieldsOfRecord_eq {fields : List (String × Schema)}
    (distinct : (Fields.names fields).Nodup) (raw : Fields Value) :
    fieldsOfRecord fields raw = carriedFields conform fields raw := by
  induction fields generalizing raw with
  | nil => rfl
  | cons first rest ih =>
    obtain ⟨name, schema⟩ := first
    rw [Fields.names_cons, List.nodup_cons] at distinct
    -- Taking out the name that was just seen leaves the other fields of the schema alone.
    have taken : carriedFields conform rest (Fields.erase name raw)
        = carriedFields conform rest raw := by
      apply carriedFields_congr
      intro other s mem
      have ne : name ≠ other := by
        rintro rfl
        exact distinct.1 (List.mem_map_of_mem mem)
      rw [Fields.get?_erase_of_ne ne]
    rw [fieldsOfRecord, carriedFields_cons]
    cases Fields.get? name raw with
    | none => exact ih distinct.2 raw
    | some v =>
      simp only
      cases dropped : v.isNull && schema.isOptional with
      | true => rw [carried_of_null dropped, if_pos rfl, ih distinct.2, taken]
      | false =>
        rw [carried_of_kept dropped, if_neg Bool.false_ne_true, ih distinct.2, taken]

/-- What a record that was laid out by name is read as. -/
theorem ofEntries_namedEntries (layout : Layout) (fields : List (String × Schema))
    (present : Fields Value) :
    Value.ofEntries (namedEntries layout fields present)
      = carriedFields (fun schema v => Value.ofItem (toItem layout schema v)) fields present := by
  induction fields with
  | nil => rfl
  | cons first rest ih =>
    obtain ⟨name, schema⟩ := first
    rw [namedEntries, carriedFields_cons]
    cases Fields.get? name present with
    | none => exact ih
    | some v =>
      simp only
      cases dropped : v.isNull && schema.isOptional with
      | true => rw [carried_of_null dropped, if_pos rfl, ih]
      | false =>
        rw [carried_of_kept dropped, if_neg Bool.false_ne_true, Value.ofEntries, ih]
        rfl

/-- Carrying and being read back from the wire do not disturb each other. -/
theorem carried_map_ofItem (layout : Layout) (schema : Schema) (field : Option Value) :
    schema.carried ((schema.carried field).map fun v => Value.ofItem (toItem layout schema v))
      = (schema.carried field).map fun v => Value.ofItem (toItem layout schema v) := by
  cases left : schema.carried field with
  | none => rfl
  | some v =>
    have kept : (!(v.isNull && schema.isOptional)) = true := (Option.filter_eq_some_iff.mp left).2
    rw [Option.map_some]
    apply carried_of_kept
    rw [isNull_ofItem_toItem]
    exact (Bool.not_eq_true' _).mp kept

/-- No fields are paired with no items. -/
theorem fieldsOfItems_nil (fields : List (String × Schema)) : fieldsOfItems fields [] = [] := by
  cases fields <;> rfl

/-- No fields take no items. -/
theorem fieldsOfItems_of_no_fields (items : List Value) : fieldsOfItems [] items = [] := by
  cases items <;> rfl

/-- Versions carry the same fields. -/
theorem Shares.carried_eq {shared written read : Schema} (h : Shares shared written read) :
    written.carried = shared.carried ∧ read.carried = shared.carried := by
  constructor
  · funext field
    rw [carried, carried, h.isOptional.1]
  · funext field
    rw [carried, carried, h.isOptional.2]

section Record

variable {layout : Layout} {fields fields' fields'' : List (String × Schema)} {present : Fields Value}

/-- A reader makes of a record that says of each name what the writer carries in it what the shared
fields carry, given that the values of the fields are read back. -/
theorem carriedFields_conform {raw : Fields Value}
    (share : FieldsShare Shares fields fields' fields'') (distinct : (Fields.names fields'').Nodup)
    (told : ∀ name written, (name, written) ∈ fields' → Fields.get? name raw
      = (written.carried (Fields.get? name present)).map
          fun v => Value.ofItem (toItem layout written v))
    (silent : ∀ name ∈ Fields.names fields'', name ∉ Fields.names fields' →
      Fields.get? name raw = none)
    (values : ∀ name shared written read v, (name, shared) ∈ fields → (name, written) ∈ fields' →
      Shares shared written read → Fields.get? name present = some v →
      conform read (Value.ofItem (toItem layout written v)) = normal shared v) :
    carriedFields conform fields'' raw = carriedFields normal fields present := by
  induction share with
  | written => rfl
  | @read more =>
    have nothing : carriedFields conform more raw = [] := by
      refine List.filterMap_eq_nil_iff.mpr fun field mem => ?_
      rw [silent field.1 (List.mem_map_of_mem mem) List.not_mem_nil]
      rfl
    exact nothing
  | @both name shared written read _ _ _ here _ ih =>
    rw [Fields.names_cons, List.nodup_cons] at distinct
    have later := ih distinct.2 (fun n w mem => told n w (List.mem_cons_of_mem _ mem))
      (fun n mem missing => by
        have other : n ≠ name := fun e => distinct.1 (e ▸ mem)
        exact silent n (List.mem_cons_of_mem _ mem)
          (List.not_mem_cons_of_ne_of_not_mem other missing))
      (fun n s w r v mem mem' => values n s w r v (List.mem_cons_of_mem _ mem)
        (List.mem_cons_of_mem _ mem'))
    -- What the reader carries in the field is what the writer carried, read back.
    rw [carriedFields_cons, carriedFields_cons, told name written List.mem_cons_self,
      here.carried_eq.2, ← here.carried_eq.1, carried_map_ofItem, later]
    cases left : written.carried (Fields.get? name present) with
    | none => rfl
    | some v =>
      have found : Fields.get? name present = some v := (Option.filter_eq_some_iff.mp left).1
      simp only [Option.map_some]
      rw [values name shared written read v List.mem_cons_self List.mem_cons_self here found]

/-- A record that was laid out by name is conformed to what its fields carry, given that their
values are. -/
theorem fieldsOfRecord_namedEntries
    (share : FieldsShare Shares fields fields' fields'') (written_distinct : (Fields.names fields').Nodup)
    (read_distinct : (Fields.names fields'').Nodup)
    (values : ∀ name shared written read v, (name, shared) ∈ fields → (name, written) ∈ fields' →
      Shares shared written read → Fields.get? name present = some v →
      conform read (Value.ofItem (toItem layout written v)) = normal shared v) :
    fieldsOfRecord fields'' (Fields.ofList (Value.ofEntries (namedEntries layout fields' present)))
      = carriedFields normal fields present := by
  -- Of each name the record says what the writer carries in it.
  have said (name : String) :
      Fields.get? name (Fields.ofList (Value.ofEntries (namedEntries layout fields' present)))
        = (Fields.get? name fields').bind fun written =>
            (written.carried (Fields.get? name present)).map
              fun v => Value.ofItem (toItem layout written v) := by
    rw [ofEntries_namedEntries, Fields.get?_ofList (nodup_names_carriedFields written_distinct present),
      get?_carriedFields _ written_distinct]
  rw [fieldsOfRecord_eq read_distinct]
  refine carriedFields_conform share read_distinct (fun name written mem => ?_)
    (fun name _ missing => ?_) values
  · rw [said, Fields.get?_eq_some_of_mem written_distinct mem, Option.bind_some]
  · rw [said, Fields.get?_eq_none_of_not_mem missing, Option.bind_none]

/-- A record that was laid out by position is conformed to what its fields carry, given that their
values are and that no required field is absent. -/
theorem fieldsOfItems_positionalItems (share : FieldsShare Shares fields fields' fields'')
    (accepted : ∀ name written, (name, written) ∈ fields' →
      FieldAccepted written (Fields.get? name present))
    (values : ∀ name shared written read v, (name, shared) ∈ fields → (name, written) ∈ fields' →
      Shares shared written read → Fields.get? name present = some v →
      conform read (Value.ofItem (toItem layout written v)) = normal shared v) :
    fieldsOfItems fields'' (Value.ofItems (positionalItems layout fields' present))
      = carriedFields normal fields present := by
  induction share with
  | written => exact fieldsOfItems_of_no_fields _
  | read => exact fieldsOfItems_nil _
  | @both name shared written read fields fields' fields'' here _ ih =>
    have later := ih (fun n s mem => accepted n s (List.mem_cons_of_mem _ mem))
      (fun n s w r v mem mem' => values n s w r v (List.mem_cons_of_mem _ mem)
        (List.mem_cons_of_mem _ mem'))
    have field := accepted name written List.mem_cons_self
    have value := fun v =>
      values name shared written read v List.mem_cons_self List.mem_cons_self here
    obtain ⟨written_optional, read_optional⟩ := here.isOptional
    rw [carriedFields_cons, positionalItems]
    -- The item of the field is nil just when the field carries nothing or is null and required.
    cases found : Fields.get? name present with
    | none =>
      rw [found] at field
      have optional : shared.isOptional = true := written_optional.symm.trans field
      simp only [carried_none]
      -- Trailing fields that carry nothing are left out altogether; others leave a nil.
      cases last : (positionalItems layout fields' present).isEmpty with
      | true =>
        rw [List.isEmpty_iff.mp last] at later
        rw [written_optional, optional]
        exact (fieldsOfItems_nil _).trans ((fieldsOfItems_nil _).symm.trans later)
      | false =>
        rw [Bool.false_and, if_neg Bool.false_ne_true, Value.ofItems, fieldsOfItems, read_optional,
          optional]
        exact later
    | some v =>
      simp only
      rw [isNil_toItem, written_optional]
      cases dropped : v.isNull && shared.isOptional with
      | true =>
        rw [carried_of_null dropped]
        cases last : (positionalItems layout fields' present).isEmpty with
        | true =>
          rw [List.isEmpty_iff.mp last] at later
          exact (fieldsOfItems_nil _).trans ((fieldsOfItems_nil _).symm.trans later)
        | false =>
          rw [Bool.false_and, if_neg Bool.false_ne_true, Value.ofItems, fieldsOfItems,
            isNull_ofItem_toItem, read_optional, dropped]
          exact later
      | false =>
        rw [carried_of_kept dropped, Bool.and_false, if_neg Bool.false_ne_true, Value.ofItems,
          fieldsOfItems, isNull_ofItem_toItem, read_optional, dropped, if_neg Bool.false_ne_true,
          value v found, later]

end Record

/-! ### All values -/

/-- A scalar that was laid out is read back. -/
theorem conform_ofItem_toItem_of_scalar {schema : Schema} (scalar : schema.isScalar = true)
    (layout : Layout) {v : Value} (formed : v.WellFormed) (plain : schema.PlainAt v)
    (accepted : schema.check v = none) :
    schema.conform (Value.ofItem (schema.toItem layout v)) = schema.normal v := by
  cases schema with
  | any => exact v.ofItem_toItem_of_plain plain formed
  | null =>
    cases v with
    | null => rfl
    | _ => simp [check] at accepted
  | bool =>
    cases v with
    | bool b => rfl
    | _ => simp [check] at accepted
  | nat width =>
    cases v with
    | nat n =>
      show conform (.nat width) (Value.ofItem (Value.natItem n)) = .nat n
      by_cases short : n < 18446744073709551616
      · rw [Value.ofItem_natItem short]
        rfl
      -- A natural above 64 bits goes as its decimal text.
      · rw [Value.natItem, if_neg short]
        exact natOfText_toString formed
    | _ => simp [check] at accepted
  | int =>
    cases v with
    | int i =>
      show conform .int (Value.ofItem (.int i.toInt)) = .int i
      -- A nonnegative integer comes back as a natural, which the schema turns into an integer again.
      have bound : i.toInt < 9223372036854775808 := i.toInt_lt
      rw [Value.ofItem]
      split
      · rename_i nonneg
        have short : i.toInt.toNat < 9223372036854775808 := by omega
        rw [conform, if_pos short, ← Int64.ofInt_eq_ofNat, Int.toNat_of_nonneg nonneg,
          Int64.ofInt_toInt]
      · rw [Int64.ofInt_toInt]
        rfl
    | _ => simp [check] at accepted
  | float =>
    cases v with
    | float x => rfl
    | _ => simp [check] at accepted
  | text =>
    cases v with
    | text s => rfl
    | _ => simp [check] at accepted
  | bytes length =>
    cases v with
    | bytes octets => rfl
    | _ => cases length <;> simp [check] at accepted
  | array | optional | record | variant => cases scalar

/-- What a version of a schema accepts and lays out is conformed by another to the normal form of the
value under the schema that they share. -/
theorem Shares.conform_ofItem_toItem {shared written read : Schema} (h : Shares shared written read)
    (layout : Layout) {v : Value} (formed : v.WellFormed) (plain : shared.PlainAt v)
    (accepted : written.check v = none) :
    read.conform (Value.ofItem (written.toItem layout v)) = shared.normal v := by
  induction shared generalizing written read v with
  | any | null | bool | nat | int | float | text | bytes =>
    cases h
    exact conform_ofItem_toItem_of_scalar rfl layout formed plain accepted
  | array element ih =>
    cases h with
    | scalar scalar => cases scalar
    | array h =>
      cases v with
      | array items =>
        rw [check_array_eq_none_iff] at accepted
        rw [toItem, Value.ofItem, Value.ofItems_eq_map, conform, normal, List.map_map, List.map_map]
        refine congrArg Value.array (List.map_congr_left fun v mem => ?_)
        exact ih h (Value.wellFormed_of_mem_items formed mem) (plain v mem) (accepted v mem)
      | _ => simp [check] at accepted
  | optional inner ih =>
    cases h with
    | scalar scalar => cases scalar
    | optional h =>
      rw [check_optional_eq_none_iff] at accepted
      rw [conform, isNull_ofItem_toItem, toItem, normal]
      cases null : v.isNull with
      | true =>
        cases v with
        | null => exact (normal_null inner).symm
        | _ => simp [Value.isNull] at null
      | false =>
        rcases accepted with absurd_null | accepted
        · rw [null] at absurd_null
          exact absurd absurd_null Bool.false_ne_true
        · exact ih h formed plain accepted
  | record fields ih =>
    cases h with
    | scalar scalar => cases scalar
    | @record _ fields' _ written_distinct read_distinct share =>
      cases v with
      | record present =>
        obtain ⟨ordered, all_formed⟩ := formed
        have distinct := share.names_sublist.nodup read_distinct
        rw [check_record_eq_none_iff] at accepted
        -- The induction gives the values of the fields; what is left is how the layout arranges them.
        have values (name : String) (shared written read : Schema) (v : Value)
            (mem : (name, shared) ∈ fields) (mem' : (name, written) ∈ fields')
            (both : Shares shared written read) (found : Fields.get? name present = some v) :
            conform read (Value.ofItem (toItem layout written v)) = normal shared v := by
          have fine := accepted name written mem'
          rw [found] at fine
          exact ih name shared mem both
            (Value.wellFormed_of_mem_fields all_formed (Fields.mem_of_get?_eq_some found))
            (FieldsPlainAt.of_mem plain mem found) fine
        rw [normal, ← ofList_carriedFields_normal distinct ordered]
        cases layout with
        | positional =>
          rw [toItem, Value.ofItem, conform, fieldsOfItems_positionalItems share accepted values]
        | named =>
          rw [toItem, Value.ofItem, conform,
            fieldsOfRecord_namedEntries share written_distinct read_distinct values]
      | _ => simp [check] at accepted
  | variant cases ih =>
    cases h with
    | scalar scalar => cases scalar
    | variant share =>
      cases v with
      | variant tag payload =>
        obtain ⟨inner, found, fine⟩ := check_variant_eq_none_iff.mp accepted
        cases payload with
        | none => rfl
        | some v =>
          rcases share.findCase tag with ⟨-, none', -⟩ | ⟨-, unit', -⟩ |
            ⟨shared, written, read, shared_found, written_found, read_found, both⟩
          · simp [none'] at found
          · rw [unit'] at found
            obtain rfl := Option.some.inj found
            exact fine.elim
          · rw [written_found] at found
            obtain rfl := Option.some.inj found
            have payload_formed : v.WellFormed := formed
            have payload_plain : PayloadPlainAt cases tag v := plain
            have value := ih tag shared (mem_of_findCase shared_found) both payload_formed
              ((payloadPlainAt_iff shared_found).mp payload_plain) fine
            rw [toItem, payloadItem_of_findCase layout written_found, normal,
              normalPayload_of_findCase shared_found, ← value]
            exact caseOf_of_findCase read_found _
      | _ => simp [check] at accepted

end Schema

end CertifiedCalls
