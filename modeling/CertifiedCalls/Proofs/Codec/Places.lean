import CertifiedCalls.Proofs.Codec.Conformance

/-! # Places in messages
A place in a value is reached by steps. The schema of a message says what was **sent** for a place: an
item and the schema that is meant for it (`Schema.part?`). What a value that was read and accepted
holds one step further down is this item, conformed to this schema; only where nothing was sent may
the value hold nothing at all (`Schema.part?_conform`). -/

namespace CertifiedCalls

open MessagePack (Item)

/-! ### Steps -/

namespace Value

/-- What a value holds one **step** further down. -/
def part? : PathStep → Value → Option Value
  | .index i, .array items => items[i]?
  | .field name, .record fields => Fields.get? name fields
  | .case tag, .variant t payload => if t = tag then payload else none
  | _, _ => none

/-- What a value holds at the end of a path. -/
def at? : List PathStep → Value → Option Value
  | [], v => some v
  | step :: path, v => (v.part? step).bind (at? path)

end Value

namespace MessagePack.Item

/-- The item of the last entry of a name. -/
def entry? (name : String) (entries : List (Item × Item)) : Option Item :=
  Fields.last? name (entries.map fun entry => (fieldName entry.1, entry.2))

/-- Whether an item is read as nothing: nil is, and so is a string that is not UTF-8. -/
def isVoid : Item → Bool
  | .nil | .brokenText _ => true
  | _ => false

end MessagePack.Item

namespace Schema

/-- The fields of a record and the items that stand in their places. -/
def placed (fields : List (String × Schema)) (items : List Item) : List (String × Schema × Item) :=
  (fields.zip items).map fun pair => (pair.1.1, pair.1.2, pair.2)

/-- What was **sent** for the place one step further down, and the schema that is meant for it. -/
def part? (step : PathStep) : Schema → Item → Option (Schema × Item)
  | .any, .array items =>
    match step with
    | .index i => items[i]?.map (.any, ·)
    | _ => none
  | .any, .map entries =>
    match step with
    | .field name => (Item.entry? name entries).map (.any, ·)
    | _ => none
  | .optional inner, item => part? step inner item
  | .array element, .array items =>
    match step with
    | .index i => items[i]?.map (element, ·)
    | _ => none
  | .record fields, .array items =>
    match step with
    | .field name => Fields.get? name (placed fields items)
    | _ => none
  | .record fields, .map entries =>
    match step with
    | .field name =>
      (Fields.get? name fields).bind fun schema => (Item.entry? name entries).map (schema, ·)
    | _ => none
  | .variant cases, .map entries =>
    match step with
    | .case tag =>
      (findCase tag cases).bind fun inner => (Item.entry? tag entries).map (inner.getD .null, ·)
    | _ => none
  | _, _ => none

/-- What was **sent** for the place at the end of a path. -/
def sent? : List PathStep → Schema → Item → Option Item
  | [], _, item => some item
  | step :: path, schema, item => (part? step schema item).bind fun part => sent? path part.1 part.2

end Schema

/-! ### What is read without a schema -/

namespace Value

/-- Nothing is read exactly where an item is void. -/
theorem isNull_ofItem (item : Item) : (ofItem item).isNull = item.isVoid := by
  cases item with
  | int i =>
    rw [ofItem]
    split <;> rfl
  | _ => rfl

/-- The named values of entries. -/
theorem ofEntries_eq_map (entries : List (Item × Item)) :
    ofEntries entries = entries.map fun entry => (fieldName entry.1, ofItem entry.2) := by
  induction entries with
  | nil => rfl
  | cons entry rest ih =>
    obtain ⟨key, item⟩ := entry
    rw [ofEntries, ih, List.map_cons]

/-- A record that was read holds in a field what the last entry of the name holds. -/
theorem get?_ofList_ofEntries (name : String) (entries : List (Item × Item)) :
    Fields.get? name (Fields.ofList (ofEntries entries)) = (Item.entry? name entries).map ofItem := by
  have changed : (entries.map fun entry => (fieldName entry.1, ofItem entry.2))
      = (entries.map fun entry => (fieldName entry.1, entry.2)).map fun pair =>
          (pair.1, ofItem pair.2) := by
    rw [List.map_map]
    rfl
  rw [Fields.get?_ofList_eq_last?, ofEntries_eq_map, changed, Fields.last?_map, Item.entry?]

/-- A sequence is read from a sequence. -/
theorem ofItem_eq_array {item : Item} {values : List Value} (h : ofItem item = .array values) :
    ∃ items, item = .array items ∧ values = items.map ofItem := by
  cases item with
  | array items =>
    rw [ofItem, ofItems_eq_map] at h
    exact ⟨items, rfl, (Value.array.inj h).symm⟩
  | int i =>
    rw [ofItem] at h
    split at h <;> cases h
  | _ => cases h

/-- A record is read from a map. -/
theorem ofItem_eq_record {item : Item} {fields : Fields Value} (h : ofItem item = .record fields) :
    ∃ entries, item = .map entries ∧ fields = Fields.ofList (ofEntries entries) := by
  cases item with
  | map entries => exact ⟨entries, rfl, (Value.record.inj h).symm⟩
  | int i =>
    rw [ofItem] at h
    split at h <;> cases h
  | _ => cases h

/-- A text is read from a text. -/
theorem ofItem_eq_text {item : Item} {s : String} (h : ofItem item = .text s) : item = .text s := by
  cases item with
  | text => exact congrArg Item.text (Value.text.inj h)
  | int i =>
    rw [ofItem] at h
    split at h <;> cases h
  | _ => cases h

/-- Nothing is read as a tagged value. -/
theorem ofItem_ne_variant (item : Item) (tag : String) (payload : Option Value) :
    ofItem item ≠ .variant tag payload := by
  cases item with
  | int i =>
    rw [ofItem]
    split <;> exact nofun
  | _ => exact nofun

end Value

namespace Schema

/-! ### What is conformed and accepted -/

/-- A single entry is never conformed to nothing. -/
theorem isNull_caseOf (cases : List (String × Option Schema)) (tag : String) (payload : Value) :
    (caseOf cases tag payload).isNull = false := by
  rw [caseOf_eq]
  split <;> rfl

/-- Only nothing is conformed to nothing. -/
theorem isNull_conform (schema : Schema) (v : Value) : (conform schema v).isNull = v.isNull := by
  induction schema generalizing v with
  | any | null | bool | text | array | record => cases v <;> rfl
  | nat width =>
    cases v with
    | text s =>
      rw [conform, natOfText]
      split
      · split <;> rfl
      · rfl
    | _ => rfl
  | int =>
    cases v with
    | nat n =>
      rw [conform]
      split <;> rfl
    | _ => rfl
  | float => cases v <;> rfl
  | bytes length =>
    cases v with
    | array items =>
      rw [conform, bytesOfItems]
      split <;> rfl
    | _ => rfl
  | optional inner ih =>
    rw [conform]
    cases null : v.isNull with
    | true => rfl
    | false => exact (ih v).trans null
  | variant cases =>
    cases v with
    | record fields =>
      rcases fields with _ | ⟨⟨tag, payload⟩, _ | ⟨second, others⟩⟩
      · rfl
      · exact isNull_caseOf cases tag payload
      · rfl
    | _ => rfl

/-- A value is **read** from an item under a schema without repeated names: the item is conformed to
the value, which the schema accepts. -/
structure Reads (schema : Schema) (item : Item) (v : Value) : Prop where
  /-- The schema names no field twice. -/
  distinct : schema.Distinct
  /-- The item is conformed to the value. -/
  conformed : schema.conform (Value.ofItem item) = v
  /-- The schema accepts the value. -/
  accepted : schema.check v = none

/-! ### Records -/

section Record

variable {fields : List (String × Schema)}

/-- Items are placed in fields of the record. -/
theorem names_placed_sublist (fields : List (String × Schema)) (items : List Item) :
    (Fields.names (placed fields items)).Sublist (Fields.names fields) := by
  induction fields generalizing items with
  | nil => exact List.Sublist.slnil
  | cons first rest ih =>
    cases items with
    | nil => exact List.nil_sublist _
    | cons item items => exact (ih items).cons_cons _

/-- A placed item is one of the items, and its schema the one of its field. -/
theorem mem_of_mem_placed {name : String} {schema : Schema} {item : Item} {items : List Item}
    (h : (name, schema, item) ∈ placed fields items) : (name, schema) ∈ fields ∧ item ∈ items := by
  obtain ⟨⟨field, item⟩, mem, e⟩ := List.mem_map.mp h
  cases e
  exact List.of_mem_zip mem

/-- A record that is read by position has fields of the schema. -/
theorem names_fieldsOfItems_sublist (fields : List (String × Schema)) (values : List Value) :
    (Fields.names (fieldsOfItems fields values)).Sublist (Fields.names fields) := by
  induction fields generalizing values with
  | nil =>
    rw [fieldsOfItems_of_no_fields]
    exact List.Sublist.slnil
  | cons first rest ih =>
    cases values with
    | nil => exact List.nil_sublist _
    | cons v values =>
      rw [fieldsOfItems]
      split
      · exact (ih values).cons _
      · exact (ih values).cons_cons _

/-- What a record that is read by position holds in a field. -/
theorem get?_fieldsOfItems (distinct : (Fields.names fields).Nodup) (items : List Item)
    (name : String) :
    Fields.get? name (fieldsOfItems fields (items.map Value.ofItem))
      = (Fields.get? name (placed fields items)).bind fun part =>
          (part.1.carried (some (Value.ofItem part.2))).map part.1.conform := by
  induction fields generalizing items with
  | nil =>
    rw [fieldsOfItems_of_no_fields]
    rfl
  | cons first rest ih =>
    obtain ⟨key, schema⟩ := first
    rw [Fields.names_cons, List.nodup_cons] at distinct
    cases items with
    | nil => rfl
    | cons item items =>
      have later := ih distinct.2 items
      rw [List.map_cons, fieldsOfItems, placed, List.zip_cons_cons, List.map_cons, Fields.get?_cons]
      by_cases e : key = name
      · rw [if_pos e, Option.bind_some]
        cases dropped : (Value.ofItem item).isNull && schema.isOptional with
        | true =>
          -- The name does not come up again after a field that was skipped.
          have missing : name ∉ Fields.names (placed rest items) := fun mem =>
            distinct.1 (e ▸ (names_placed_sublist rest items).mem mem)
          rw [if_pos rfl, later, Fields.get?_eq_none_of_not_mem missing, carried_of_null dropped]
          rfl
        | false =>
          rw [if_neg Bool.false_ne_true, Fields.get?_cons, if_pos e, carried_of_kept dropped]
          rfl
      · rw [if_neg e]
        split
        · exact later
        · rw [Fields.get?_cons, if_neg e]
          exact later

/-- What is sent for a field is meant for a field of the record. -/
theorem mem_of_part?_record {name : String} {item : Item} {part : Schema × Item}
    (sent : part? (.field name) (.record fields) item = some part) : (name, part.1) ∈ fields := by
  cases item with
  | array items => exact (mem_of_mem_placed (Fields.mem_of_get?_eq_some sent)).1
  | map entries =>
    obtain ⟨schema, named, there⟩ := Option.bind_eq_some_iff.mp sent
    obtain ⟨_, -, rfl⟩ := Option.map_eq_some_iff.mp there
    exact Fields.mem_of_get?_eq_some named
  | _ => cases sent

/-- **What a record that was read holds in a field** is what was sent for it, conformed, unless this
is carried by an optional field and nothing. -/
theorem get?_conform_record (distinct : (Fields.names fields).Nodup) {item : Item}
    {present : Fields Value}
    (conformed : conform (.record fields) (Value.ofItem item) = .record present) (name : String) :
    Fields.get? name present
      = (part? (.field name) (.record fields) item).bind fun part =>
          (part.1.carried (some (Value.ofItem part.2))).map part.1.conform := by
  cases item with
  | array items =>
    rw [Value.ofItem, Value.ofItems_eq_map, conform] at conformed
    obtain rfl := Value.record.inj conformed
    have once := (names_fieldsOfItems_sublist fields (items.map Value.ofItem)).nodup distinct
    rw [Fields.get?_ofList once, get?_fieldsOfItems distinct]
    rfl
  | map entries =>
    rw [Value.ofItem, conform, fieldsOfRecord_eq distinct] at conformed
    obtain rfl := Value.record.inj conformed
    rw [Fields.get?_ofList (nodup_names_carriedFields distinct _), get?_carriedFields _ distinct,
      Value.get?_ofList_ofEntries, part?, Option.bind_assoc]
    congr 1
    funext schema
    cases Item.entry? name entries <;> rfl
  | int i =>
    rw [Value.ofItem] at conformed
    split at conformed <;> cases conformed
  | _ => cases conformed

end Record

/-- Nothing is sent further down in what is void. -/
theorem part?_of_isVoid (step : PathStep) (schema : Schema) {item : Item} (void : item.isVoid = true) :
    part? step schema item = none := by
  induction schema with
  | optional inner ih => exact ih
  | _ =>
    cases item with
    | nil | brokenText => rfl
    | _ => cases void

namespace Reads

variable {item : Item} {v : Value}

/-- Nothing is read exactly from what is void. -/
theorem isNull_eq {schema : Schema} (h : schema.Reads item v) : v.isNull = item.isVoid := by
  rw [← h.conformed, isNull_conform, Value.isNull_ofItem]

/-- **A sequence** is read from a sequence, element by element. -/
theorem array {element : Schema} (h : (Schema.array element).Reads item v) :
    ∃ items, item = .array items ∧
      v = .array (items.map fun item => element.conform (Value.ofItem item)) ∧
      ∀ item ∈ items, element.Reads item (element.conform (Value.ofItem item)) := by
  obtain ⟨distinct, rfl, accepted⟩ := h
  cases read : Value.ofItem item with
  | array values =>
    obtain ⟨items, rfl, rfl⟩ := Value.ofItem_eq_array read
    rw [read, conform, check_array_eq_none_iff, List.map_map] at accepted
    refine ⟨items, rfl, ?_, fun item mem => ⟨distinct, rfl, accepted _ (List.mem_map_of_mem mem)⟩⟩
    rw [conform, List.map_map]
    rfl
  | _ =>
    rw [read] at accepted
    simp [conform, check] at accepted

/-- **What may be missing** is nothing, or it is read under the inner schema. -/
theorem optional {inner : Schema} (h : (Schema.optional inner).Reads item v) :
    v = .null ∨ (v.isNull = false ∧ inner.Reads item v) := by
  obtain ⟨distinct, rfl, accepted⟩ := h
  rw [conform] at accepted ⊢
  cases null : (Value.ofItem item).isNull with
  | true => exact .inl rfl
  | false =>
    have there : (inner.conform (Value.ofItem item)).isNull = false :=
      (isNull_conform inner _).trans null
    rw [null, if_neg Bool.false_ne_true, check_optional_eq_none_iff, there] at accepted
    exact .inr ⟨there, distinct, rfl, accepted.resolve_left Bool.false_ne_true⟩

/-- **A record** is read from a sequence or a map. -/
theorem record {fields : List (String × Schema)} (h : (Schema.record fields).Reads item v) :
    ∃ present, v = .record present ∧ Fields.Ordered present ∧
      ((∃ items, item = .array items) ∨ ∃ entries, item = .map entries) := by
  obtain ⟨distinct, rfl, accepted⟩ := h
  cases read : Value.ofItem item with
  | array values =>
    obtain ⟨items, rfl, -⟩ := Value.ofItem_eq_array read
    exact ⟨_, rfl, Fields.ordered_ofList _, .inl ⟨items, rfl⟩⟩
  | record raw =>
    obtain ⟨entries, rfl, -⟩ := Value.ofItem_eq_record read
    exact ⟨_, rfl, Fields.ordered_ofList _, .inr ⟨entries, rfl⟩⟩
  | _ =>
    rw [read] at accepted
    simp [conform, check] at accepted

/-- **A field** of a record is read from what was sent for it, under the schema of the field. -/
theorem field {fields : List (String × Schema)} {present : Fields Value} {name : String} {w : Value}
    (h : (Schema.record fields).Reads item (.record present))
    (found : Fields.get? name present = some w) :
    ∃ part, part? (.field name) (.record fields) item = some part ∧ (name, part.1) ∈ fields ∧
      part.1.Reads part.2 w ∧ (w.isNull && part.1.isOptional) = false := by
  have told := found
  rw [get?_conform_record h.distinct.1 h.conformed, Option.bind_eq_some_iff] at told
  obtain ⟨part, sent, carried⟩ := told
  have named : (name, part.1) ∈ fields := mem_of_part?_record sent
  obtain ⟨raw, kept, rfl⟩ := Option.map_eq_some_iff.mp carried
  obtain ⟨e, kept⟩ := Option.filter_eq_some_iff.mp kept
  obtain rfl := Option.some.inj e
  have fine := check_record_eq_none_iff.mp h.accepted name part.1 named
  rw [found] at fine
  refine ⟨part, sent, named, ⟨h.distinct.2.of_mem named, rfl, fine⟩, ?_⟩
  rw [isNull_conform]
  exact (Bool.not_eq_true' _).mp kept

/-- What was sent for a field and is not void is **kept**. -/
theorem field_kept {fields : List (String × Schema)} {present : Fields Value} {name : String}
    {part : Schema × Item} (h : (Schema.record fields).Reads item (.record present))
    (sent : part? (.field name) (.record fields) item = some part) (there : part.2.isVoid = false) :
    ∃ w, Fields.get? name present = some w := by
  have kept : ((Value.ofItem part.2).isNull && part.1.isOptional) = false := by
    rw [Value.isNull_ofItem, there, Bool.false_and]
  rw [get?_conform_record h.distinct.1 h.conformed, sent, Option.bind_some, carried_of_kept kept]
  exact ⟨_, rfl⟩

/-- An accepted single entry has a payload that is read under its case, or a void one where the case
has no payload. -/
theorem payload {cases : List (String × Option Schema)} {tag : String} {payload : Item}
    (distinct : CasesDistinct cases)
    (accepted : check (.variant cases) (caseOf cases tag (Value.ofItem payload)) = none) :
    (findCase tag cases = some none ∧ payload.isVoid = true ∧
        caseOf cases tag (Value.ofItem payload) = .variant tag none) ∨
      ∃ schema w, findCase tag cases = some (some schema) ∧
        caseOf cases tag (Value.ofItem payload) = .variant tag (some w) ∧ schema.Reads payload w := by
  rw [caseOf_eq] at accepted ⊢
  cases found : findCase tag cases with
  | none =>
    rw [found] at accepted
    obtain ⟨inner, found', -⟩ := check_variant_eq_none_iff.mp accepted
    rw [found] at found'
    cases found'
  | some inner =>
    rw [found] at accepted
    cases inner with
    | none =>
      obtain ⟨inner, found', fine⟩ := check_variant_eq_none_iff.mp accepted
      obtain rfl := Option.some.inj (found.symm.trans found')
      rw [Value.isNull_ofItem] at fine ⊢
      cases void : payload.isVoid with
      | true => exact .inl ⟨rfl, rfl, rfl⟩
      | false =>
        rw [void] at fine
        exact fine.elim
    | some schema =>
      obtain ⟨inner, found', fine⟩ := check_variant_eq_none_iff.mp accepted
      obtain rfl := Option.some.inj (found.symm.trans found')
      exact .inr ⟨schema, _, rfl, rfl, distinct.of_mem (mem_of_findCase found), rfl, fine⟩

/-- **A tagged value** is read from its tag, or from a map that has no other key. A payload is read
from what was sent for it; where the case has none, what was sent is void. -/
theorem variant {cases : List (String × Option Schema)} (h : (Schema.variant cases).Reads item v) :
    (∃ tag, item = .text tag ∧ findCase tag cases = some none ∧ v = .variant tag none) ∨
      ∃ entries tag payload, item = .map entries ∧
        (∀ t, Item.entry? t entries = if tag = t then some payload else none) ∧
        ((findCase tag cases = some none ∧ payload.isVoid = true ∧ v = .variant tag none) ∨
          ∃ schema w, findCase tag cases = some (some schema) ∧ v = .variant tag (some w) ∧
            schema.Reads payload w) := by
  obtain ⟨distinct, rfl, accepted⟩ := h
  cases read : Value.ofItem item with
  | text tag =>
    rw [read, conform] at accepted
    obtain ⟨inner, found, fine⟩ := check_variant_eq_none_iff.mp accepted
    cases inner with
    | none => exact .inl ⟨tag, Value.ofItem_eq_text read, found, rfl⟩
    | some schema => exact fine.elim
  | record gathered =>
    obtain ⟨entries, rfl, same⟩ := Value.ofItem_eq_record read
    rw [read] at accepted
    rcases gathered with _ | ⟨⟨tag, raw⟩, _ | ⟨second, others⟩⟩
    · simp [conform, check] at accepted
    · -- The entries of the map all have the tag for their key, and the last one holds the payload.
      have told (t : String) : (Item.entry? t entries).map Value.ofItem
          = if tag = t then some raw else none := by
        rw [← Value.get?_ofList_ofEntries, ← same]
        rfl
      have here := told tag
      rw [if_pos rfl] at here
      obtain ⟨payload, last, rfl⟩ := Option.map_eq_some_iff.mp here
      have only (t : String) : Item.entry? t entries = if tag = t then some payload else none := by
        split
        · rename_i e
          exact e ▸ last
        · rename_i ne
          have nothing := told t
          rw [if_neg ne] at nothing
          exact Option.map_eq_none_iff.mp nothing
      exact .inr ⟨entries, tag, payload, rfl, only, Reads.payload distinct accepted⟩
    · simp [conform, check] at accepted
  | variant tag payload => exact absurd read (Value.ofItem_ne_variant item tag payload)
  | _ =>
    rw [read] at accepted
    simp [conform, check] at accepted

/-- Anything is read as it is. -/
theorem eq_ofItem (h : Schema.any.Reads item v) : v = Value.ofItem item := by
  rw [← h.conformed]
  cases Value.ofItem item <;> rfl

/-- Every item is read as anything. -/
theorem any {item : Item} : Schema.any.Reads item (Value.ofItem item) :=
  ⟨trivial, by cases Value.ofItem item <;> rfl, rfl⟩

/-- Nothing stands further down in an accepted scalar. -/
theorem part?_eq_none {schema : Schema} (scalar : schema.isScalar = true) (some : schema ≠ .any)
    (accepted : schema.check v = none) (step : PathStep) : v.part? step = none := by
  cases v with
  | array | record | variant =>
    cases schema with
    | any => exact absurd rfl some
    | array | optional | record | variant => cases scalar
    | bytes length => cases length <;> cases accepted
    | _ => cases accepted
  | _ => cases step <;> rfl

/-- **What a value holds one step further down** was sent for this place, and it is read from it. -/
theorem part {schema : Schema} (h : schema.Reads item v) {step : PathStep} {w : Value}
    (found : v.part? step = some w) :
    ∃ part, schema.part? step item = some part ∧ part.1.Reads part.2 w := by
  induction schema with
  | any =>
    rw [h.eq_ofItem] at found
    cases item with
    | array items =>
      cases step with
      | index i =>
        rw [Value.ofItem, Value.ofItems_eq_map, Value.part?, List.getElem?_map] at found
        obtain ⟨item, there, rfl⟩ := Option.map_eq_some_iff.mp found
        exact ⟨(.any, item), by rw [part?, there]; rfl, any⟩
      | _ => cases found
    | map entries =>
      cases step with
      | field name =>
        rw [Value.ofItem, Value.part?, Value.get?_ofList_ofEntries] at found
        obtain ⟨item, there, rfl⟩ := Option.map_eq_some_iff.mp found
        exact ⟨(.any, item), by rw [part?, there]; rfl, any⟩
      | _ => cases found
    | int i =>
      rw [Value.ofItem] at found
      split at found <;> cases step <;> cases found
    | _ => cases step <;> cases found
  | null | bool | nat | int | float | text | bytes =>
    rw [part?_eq_none rfl (by simp) h.accepted] at found
    cases found
  | array element =>
    obtain ⟨items, rfl, rfl, each⟩ := h.array
    cases step with
    | index i =>
      rw [Value.part?, List.getElem?_map] at found
      obtain ⟨item, there, rfl⟩ := Option.map_eq_some_iff.mp found
      exact ⟨(element, item), by rw [part?, there]; rfl, each item (List.mem_of_getElem? there)⟩
    | _ => cases found
  | optional inner ih =>
    rcases h.optional with rfl | ⟨-, h⟩
    · cases step <;> cases found
    · exact ih h
  | record fields =>
    obtain ⟨present, rfl, -, -⟩ := h.record
    cases step with
    | field name =>
      obtain ⟨part, sent, -, read, -⟩ := h.field found
      exact ⟨part, sent, read⟩
    | _ => cases found
  | variant cases =>
    rcases h.variant with ⟨tag, -, -, rfl⟩ | ⟨entries, tag, payload, rfl, last, case⟩
    · cases step <;> simp [Value.part?] at found
    · rcases case with ⟨-, -, rfl⟩ | ⟨schema, w', known, rfl, read⟩
      · cases step <;> simp [Value.part?] at found
      · cases step with
        | case t =>
          rw [Value.part?] at found
          split at found
          · rename_i e
            subst e
            obtain rfl := Option.some.inj found
            refine ⟨(schema, payload), ?_, read⟩
            rw [part?, known, last, if_pos rfl]
            rfl
          · cases found
        | _ => cases found

/-- **What was sent for a place** and is not void is there. -/
theorem there {schema : Schema} (h : schema.Reads item v) {step : PathStep} {part : Schema × Item}
    (sent : schema.part? step item = some part) (solid : part.2.isVoid = false) :
    ∃ w, v.part? step = some w := by
  induction schema with
  | any =>
    rw [h.eq_ofItem]
    cases item with
    | array items =>
      cases step with
      | index i =>
        obtain ⟨item, there, rfl⟩ := Option.map_eq_some_iff.mp sent
        exact ⟨Value.ofItem item, by
          rw [Value.ofItem, Value.ofItems_eq_map, Value.part?, List.getElem?_map, there]; rfl⟩
      | _ => cases sent
    | map entries =>
      cases step with
      | field name =>
        obtain ⟨item, there, rfl⟩ := Option.map_eq_some_iff.mp sent
        exact ⟨Value.ofItem item, by
          rw [Value.ofItem, Value.part?, Value.get?_ofList_ofEntries, there]; rfl⟩
      | _ => cases sent
    | _ => cases sent
  | null | bool | nat | int | float | text | bytes => cases sent
  | array element =>
    obtain ⟨items, rfl, rfl, -⟩ := h.array
    cases step with
    | index i =>
      obtain ⟨item, there, rfl⟩ := Option.map_eq_some_iff.mp sent
      exact ⟨_, by rw [Value.part?, List.getElem?_map, there]; rfl⟩
    | _ => cases sent
  | optional inner ih =>
    rcases h.optional with rfl | ⟨-, h⟩
    · rw [part?_of_isVoid step _ h.isNull_eq.symm] at sent
      cases sent
    · exact ih h sent
  | record fields =>
    obtain ⟨present, rfl, -, kind⟩ := h.record
    cases step with
    | field name => exact h.field_kept sent solid
    | _ => rcases kind with ⟨items, rfl⟩ | ⟨entries, rfl⟩ <;> cases sent
  | variant cases =>
    rcases h.variant with ⟨tag, rfl, -, rfl⟩ | ⟨entries, tag, payload, rfl, last, case⟩
    · cases sent
    · cases step with
      | case t =>
        obtain ⟨inner, known', there⟩ := Option.bind_eq_some_iff.mp sent
        obtain ⟨item, last', rfl⟩ := Option.map_eq_some_iff.mp there
        rw [last] at last'
        split at last'
        · rename_i e
          subst e
          obtain rfl := Option.some.inj last'
          rcases case with ⟨-, void, rfl⟩ | ⟨schema, w, known, rfl, -⟩
          · rw [void] at solid
            cases solid
          · exact ⟨w, if_pos rfl⟩
        · cases last'
      | _ => cases sent

end Reads

end Schema

end CertifiedCalls
