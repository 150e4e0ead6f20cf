import CertifiedCalls.Proofs.Codec.Conformance

/-! # How records are laid out
By position, a record goes as a sequence that ends with the last field that is **needed**, one that is
not optional or carries something, and the item of every field stands at the index of the field. By
name it goes as a map with an entry for each field that carries something, in the schema's order. What
is inside of a record is laid out in the same way (`LaidOut`), so all of this holds of every record in
a value that its schema accepts (`toItem_record`). -/

namespace CertifiedCalls.Schema

open MessagePack (Item)

/-! ### Where a list ends -/

section EndsAfter

variable {α : Type} {p : α → Prop} {x : α} {xs : List α} {n : Nat}

/-- `n` items of a list suffice for those with a property, and no fewer do: `n` is one more than the
greatest index of such an item, or zero when there is none. -/
structure EndsAfter (p : α → Prop) (xs : List α) (n : Nat) : Prop where
  /-- Every item with the property comes before index `n`. -/
  covers : ∀ j x, xs[j]? = some x → p x → j < n
  /-- The item before index `n` has the property. -/
  last : ∀ m, n = m + 1 → ∃ x, xs[m]? = some x ∧ p x

/-- Of no items none is needed. -/
theorem EndsAfter.nil : EndsAfter p ([] : List α) 0 where
  covers := by simp
  last := by simp

/-- An item without the property in front of such items changes nothing. -/
theorem EndsAfter.cons_of_not (h : EndsAfter p xs 0) (none : ¬ p x) : EndsAfter p (x :: xs) 0 where
  covers := by
    intro j y at_j holds
    cases j with
    | zero =>
      obtain rfl : x = y := by simpa using at_j
      exact absurd holds none
    | succ j => exact absurd (h.covers j y at_j holds) (Nat.not_lt_zero j)
  last := by simp

/-- An item with the property, or one before an item with it, makes one more. -/
theorem EndsAfter.cons (h : EndsAfter p xs n) (some : n = 0 → p x) : EndsAfter p (x :: xs) (n + 1) where
  covers := by
    intro j y at_j holds
    cases j with
    | zero => exact Nat.succ_pos n
    | succ j => exact Nat.succ_lt_succ (h.covers j y at_j holds)
  last := by
    intro m length
    obtain rfl : n = m := Nat.succ.inj length
    cases n with
    | zero => exact ⟨x, rfl, some rfl⟩
    | succ n => exact h.last n rfl

/-- There is one such number. -/
theorem EndsAfter.unique {m : Nat} (h : EndsAfter p xs n) (h' : EndsAfter p xs m) : n = m := by
  have le {n m : Nat} (h : EndsAfter p xs n) (h' : EndsAfter p xs m) : n ≤ m := by
    cases n with
    | zero => exact Nat.zero_le m
    | succ n =>
      obtain ⟨x, at_n, holds⟩ := h.last n rfl
      exact h'.covers n x at_n holds
  exact Nat.le_antisymm (le h h') (le h' h)

/-- No more items suffice than there are. -/
theorem EndsAfter.le_length (h : EndsAfter p xs n) : n ≤ xs.length := by
  cases n with
  | zero => exact Nat.zero_le _
  | succ n =>
    obtain ⟨x, at_n, -⟩ := h.last n rfl
    exact (List.getElem?_eq_some_iff.mp at_n).1

end EndsAfter

/-! ### The fields of a record -/

section Record

variable {layout : Layout} {fields : List (String × Schema)} {present : Fields Value}
  {field : String × Schema}

/-- A field of a record is **needed** when it is not optional, or there and not null. -/
def Needed (present : Fields Value) (field : String × Schema) : Prop :=
  field.2.isOptional = false ∨ ∃ v, Fields.get? field.1 present = some v ∧ v.isNull = false

/-- The fields of a record schema for which the record carries something. -/
def carriedBy (present : Fields Value) (fields : List (String × Schema)) : List (String × Schema) :=
  fields.filter fun field => (field.2.carried (Fields.get? field.1 present)).isSome

/-- The item of a field: nil when it is absent. -/
def fieldItem (layout : Layout) (present : Fields Value) (field : String × Schema) : Item :=
  (Fields.get? field.1 present).elim .nil (toItem layout field.2)

/-- The item of a field that carries nothing is nil. -/
theorem fieldItem_of_carried_eq_none
    (nothing : field.2.carried (Fields.get? field.1 present) = none) :
    fieldItem layout present field = .nil := by
  obtain ⟨name, schema⟩ := field
  rw [fieldItem]
  cases found : Fields.get? name present with
  | none => rfl
  | some v =>
    have null : v.isNull = true ∧ schema.isOptional = true := by
      simpa [carried, Option.filter, found] using nothing
    cases schema with
    | optional inner => simp [toItem, null.1]
    | _ => simp [isOptional] at null

/-- The items that may be left out at the end are those of the fields that are not needed. -/
theorem fieldItem_isNil_iff :
    ((fieldItem layout present field).isNil && field.2.isOptional) = true ↔
      ¬ Needed present field := by
  simp only [Needed, fieldItem, Bool.and_eq_true, not_or, not_exists, not_and, Bool.not_eq_false]
  cases found : Fields.get? field.1 present with
  | none => simp [Item.isNil]
  | some v => simp [isNil_toItem, and_comm]

/-- The items of a record by position, without those at the end that may be left out. -/
theorem positionalItems_cons :
    positionalItems layout (field :: fields) present =
      if (positionalItems layout fields present).isEmpty &&
          ((fieldItem layout present field).isNil && field.2.isOptional) then []
      else fieldItem layout present field :: positionalItems layout fields present := by
  rw [positionalItems, fieldItem]
  cases Fields.get? field.1 present <;> rfl

/-- **The sequence ends with the last field that is needed.** -/
theorem endsAfter_positionalItems :
    EndsAfter (Needed present) fields (positionalItems layout fields present).length := by
  induction fields with
  | nil => exact .nil
  | cons field rest ih =>
    rw [positionalItems_cons]
    split
    · rename_i dropped
      rw [Bool.and_eq_true, List.isEmpty_iff, fieldItem_isNil_iff] at dropped
      obtain ⟨empty, spare⟩ := dropped
      rw [empty] at ih
      exact ih.cons_of_not spare
    · rename_i kept
      rw [Bool.and_eq_true, List.isEmpty_iff, fieldItem_isNil_iff] at kept
      apply ih.cons
      intro none
      apply Classical.byContradiction
      intro spare
      exact kept ⟨List.length_eq_zero_iff.mp none, spare⟩

/-- **Positions never shift**: the item at an index is that of the field there. -/
theorem getElem?_positionalItems {j : Nat} {item : Item} (at_j : fields[j]? = some field)
    (sent : (positionalItems layout fields present)[j]? = some item) :
    item = fieldItem layout present field := by
  induction fields generalizing j with
  | nil => simp at at_j
  | cons first rest ih =>
    rw [positionalItems_cons] at sent
    split at sent
    · simp at sent
    · cases j with
      | zero =>
        obtain rfl : first = field := by simpa using at_j
        simpa using sent.symm
      | succ j => exact ih at_j sent

/-- The item at the index of a field that is there is the item of its value. -/
theorem eq_toItem_of_positionalItems {j : Nat} {item : Item} {v : Value}
    (at_j : fields[j]? = some field) (sent : (positionalItems layout fields present)[j]? = some item)
    (there : Fields.get? field.1 present = some v) : item = toItem layout field.2 v := by
  rw [getElem?_positionalItems at_j sent, fieldItem, there, Option.elim_some]

/-- **The map has an entry for each field that carries something**, in the schema's order. -/
theorem namedEntries_eq :
    namedEntries layout fields present =
      (carriedBy present fields).map fun field => (.text field.1, fieldItem layout present field) := by
  induction fields with
  | nil => rfl
  | cons field rest ih =>
    obtain ⟨name, schema⟩ := field
    rw [namedEntries, carriedBy, List.filter_cons, ← carriedBy]
    cases found : Fields.get? name present with
    | none => simpa using ih
    | some v =>
      by_cases dropped : (v.isNull && schema.isOptional) = true
      · simpa [dropped, carried_of_null dropped] using ih
      · simp only [Bool.not_eq_true] at dropped
        simp [dropped, carried_of_kept dropped, fieldItem, found, ih]

/-- The keys of the map are the names of these fields. -/
theorem keys_namedEntries :
    (namedEntries layout fields present).map Prod.fst =
      (carriedBy present fields).map fun field => Item.text field.1 := by
  rw [namedEntries_eq, List.map_map]
  rfl

/-- The entry of a field that carries something holds the item of its value. -/
theorem eq_toItem_of_namedEntries {j : Nat} {key item : Item} {v : Value}
    (at_j : (carriedBy present fields)[j]? = some field)
    (sent : (namedEntries layout fields present)[j]? = some (key, item))
    (there : Fields.get? field.1 present = some v) : item = toItem layout field.2 v := by
  rw [namedEntries_eq, List.getElem?_map, at_j, Option.map_some, Option.some.injEq,
    Prod.mk.injEq] at sent
  rw [← sent.2, fieldItem, there, Option.elim_some]

/-- Fields that carry something are there. -/
theorem exists_of_mem_carriedBy (mem : field ∈ carriedBy present fields) :
    field ∈ fields ∧ ∃ v, Fields.get? field.1 present = some v := by
  obtain ⟨named, carries⟩ := List.mem_filter.mp mem
  obtain ⟨v, left⟩ := Option.isSome_iff_exists.mp carries
  exact ⟨named, v, (Option.filter_eq_some_iff.mp left).1⟩

/-- Fields with distinct names have entries with distinct keys. -/
theorem nodup_keys (distinct : (Fields.names fields).Nodup) :
    ((carriedBy present fields).map fun field => Item.text field.1).Nodup := by
  have kept : ((carriedBy present fields).map Prod.fst).Nodup :=
    distinct.sublist (List.filter_sublist.map Prod.fst)
  rw [List.Nodup, List.pairwise_map] at kept
  rw [List.Nodup, List.pairwise_map]
  exact kept.imp fun differ same => differ (Item.text.inj same)

end Record

/-! ### Values -/

/-- An item is **laid out** for a value by a schema. -/
inductive LaidOut : Layout → Schema → Value → Item → Prop
  /-- A scalar has one item, in either layout. -/
  | scalar {layout : Layout} {schema : Schema} (scalar : schema.isScalar = true) (v : Value) :
    LaidOut layout schema v v.toItem
  /-- Nothing goes as nil where it may be missing. -/
  | absent {layout : Layout} (inner : Schema) : LaidOut layout (.optional inner) .null .nil
  /-- What is not missing goes as it would elsewhere. -/
  | present {layout : Layout} {inner : Schema} {v : Value} {item : Item} (some : v.isNull = false)
    (here : LaidOut layout inner v item) : LaidOut layout (.optional inner) v item
  /-- The elements of a sequence go one by one. -/
  | array {layout : Layout} {element : Schema} {values : List Value} {items : List Item}
    (length : items.length = values.length)
    (each : ∀ (j : Nat) (v : Value) (item : Item), values[j]? = some v → items[j]? = some item →
      LaidOut layout element v item) :
    LaidOut layout (.array element) (.array values) (.array items)
  /-- By position, a record has an item at the index of every field up to the last one needed: nil for
  a field that carries nothing. -/
  | positional {fields : List (String × Schema)} {present : Fields Value} {items : List Item}
    (ends : EndsAfter (Needed present) fields items.length)
    (void : ∀ (j : Nat) (field : String × Schema) (item : Item), fields[j]? = some field →
      items[j]? = some item → field.2.carried (Fields.get? field.1 present) = none → item = .nil)
    (each : ∀ (j : Nat) (field : String × Schema) (item : Item) (v : Value),
      fields[j]? = some field → items[j]? = some item → Fields.get? field.1 present = some v →
      LaidOut .positional field.2 v item) :
    LaidOut .positional (.record fields) (.record present) (.array items)
  /-- By name, a record has an entry for every field that carries something, in the schema's order. -/
  | named {fields : List (String × Schema)} {present : Fields Value} {entries : List (Item × Item)}
    (keys : entries.map Prod.fst = (carriedBy present fields).map fun field => Item.text field.1)
    (once : (Fields.names fields).Nodup → (entries.map Prod.fst).Nodup)
    (each : ∀ (j : Nat) (field : String × Schema) (key item : Item) (v : Value),
      (carriedBy present fields)[j]? = some field → entries[j]? = some (key, item) →
      Fields.get? field.1 present = some v → LaidOut .named field.2 v item) :
    LaidOut .named (.record fields) (.record present) (.map entries)
  /-- A tag alone goes as a text. -/
  | tag {layout : Layout} (cases : List (String × Option Schema)) (tag : String) :
    LaidOut layout (.variant cases) (.variant tag none) (.text tag)
  /-- A tag with a payload goes as a map of one entry. -/
  | payload {layout : Layout} {cases : List (String × Option Schema)} {tag : String} {schema : Schema}
    {v : Value} {item : Item} (found : findCase tag cases = some (some schema))
    (here : LaidOut layout schema v item) :
    LaidOut layout (.variant cases) (.variant tag (some v)) (.map [(.text tag, item)])

/-- A record is laid out when the values of its fields are. -/
theorem laidOut_record {layout : Layout} {fields : List (String × Schema)} {present : Fields Value}
    (each : ∀ field ∈ fields, ∀ v, Fields.get? field.1 present = some v →
      LaidOut layout field.2 v (toItem layout field.2 v)) :
    LaidOut layout (.record fields) (.record present)
      (toItem layout (.record fields) (.record present)) := by
  cases layout with
  | positional =>
    rw [toItem]
    refine .positional endsAfter_positionalItems ?_ ?_
    · intro j field item at_j sent nothing
      rw [getElem?_positionalItems at_j sent, fieldItem_of_carried_eq_none nothing]
    · intro j field item v at_j sent there
      rw [eq_toItem_of_positionalItems at_j sent there]
      exact each field (List.mem_of_getElem? at_j) v there
  | named =>
    rw [toItem]
    refine .named keys_namedEntries (fun distinct => ?_) ?_
    · rw [keys_namedEntries]
      exact nodup_keys distinct
    · intro j field key item v at_j sent there
      rw [eq_toItem_of_namedEntries at_j sent there]
      exact each field (exists_of_mem_carriedBy (List.mem_of_getElem? at_j)).1 v there

/-- **What a schema accepts is laid out by it.** -/
theorem laidOut_toItem {layout : Layout} {schema : Schema} {v : Value}
    (accepted : check schema v = none) : LaidOut layout schema v (toItem layout schema v) := by
  induction schema generalizing v with
  | any | null | bool | nat | int | float | text | bytes =>
    exact .scalar rfl v
  | array element ih =>
    cases v with
    | array values =>
      rw [check_array_eq_none_iff] at accepted
      rw [toItem]
      refine .array (List.length_map _) ?_
      intro j v item at_j sent
      rw [List.getElem?_map, at_j, Option.map_some, Option.some.injEq] at sent
      rw [← sent]
      exact ih (accepted v (List.mem_of_getElem? at_j))
    | _ => simp [check] at accepted
  | optional inner ih =>
    rw [check_optional_eq_none_iff] at accepted
    rw [toItem]
    cases null : v.isNull with
    | true =>
      obtain rfl : v = .null := by
        cases v <;> first | rfl | cases null
      exact .absent inner
    | false =>
      rw [null] at accepted
      exact .present null (ih (accepted.resolve_left Bool.false_ne_true))
  | record fields ih =>
    cases v with
    | record present =>
      rw [check_record_eq_none_iff] at accepted
      apply laidOut_record
      intro field mem v there
      have fine := accepted field.1 field.2 mem
      rw [there] at fine
      exact ih field.1 field.2 mem fine
    | _ => simp [check] at accepted
  | variant cases ih =>
    cases v with
    | variant tag payload =>
      obtain ⟨inner, found, fine⟩ := check_variant_eq_none_iff.mp accepted
      cases payload with
      | none => exact .tag cases tag
      | some v =>
        cases inner with
        | none => exact fine.elim
        | some schema =>
          rw [toItem, payloadItem_of_findCase layout found]
          exact .payload found (ih tag schema (mem_of_findCase found) fine)
    | _ => simp [check] at accepted

/-- **Nothing else is laid out**: the layout of a value leaves one item for it. -/
theorem LaidOut.eq_toItem {layout : Layout} {schema : Schema} {v : Value} {item : Item}
    (h : LaidOut layout schema v item) : item = toItem layout schema v := by
  induction h with
  | @scalar layout schema scalar v => cases schema <;> first | rfl | cases scalar
  | absent inner => rfl
  | present some here ih => rw [toItem, some, if_neg Bool.false_ne_true, ih]
  | @array layout element values items length each ih =>
    rw [toItem]
    refine congrArg Item.array (List.ext_getElem? fun j => ?_)
    rw [List.getElem?_map]
    cases at_j : values[j]? with
    | none =>
      rw [List.getElem?_eq_none_iff] at at_j
      exact List.getElem?_eq_none_iff.mpr (length ▸ at_j)
    | some v =>
      obtain ⟨j_lt, -⟩ := List.getElem?_eq_some_iff.mp at_j
      have sent := List.getElem?_eq_getElem (length ▸ j_lt : j < items.length)
      rw [sent, ih j v _ at_j sent, Option.map_some]
  | @positional fields present items ends void each ih =>
    rw [toItem]
    have length : items.length = (positionalItems .positional fields present).length :=
      ends.unique endsAfter_positionalItems
    refine congrArg Item.array (List.ext_getElem length fun j j_lt j_lt' => ?_)
    have j_lt_fields : j < fields.length := Nat.lt_of_lt_of_le j_lt ends.le_length
    have at_j := List.getElem?_eq_getElem j_lt_fields
    have sent := List.getElem?_eq_getElem j_lt
    rw [getElem?_positionalItems at_j (List.getElem?_eq_getElem j_lt'), fieldItem]
    cases there : Fields.get? fields[j].1 present with
    | none => exact void j _ _ at_j sent (by rw [there, carried_none])
    | some v => exact ih j _ _ v at_j sent there
  | @named fields present entries keys once each ih =>
    rw [toItem]
    have length : entries.length = (carriedBy present fields).length := by
      simpa using congrArg List.length keys
    refine congrArg Item.map ?_
    rw [namedEntries_eq]
    refine List.ext_getElem (by rw [length, List.length_map]) fun j j_lt j_lt' => ?_
    have at_j := List.getElem?_eq_getElem (length ▸ j_lt : j < (carriedBy present fields).length)
    obtain ⟨-, v, there⟩ := exists_of_mem_carriedBy (List.mem_of_getElem? at_j)
    have item : entries[j].2 = toItem .named (carriedBy present fields)[j].2 v :=
      ih j _ _ _ v at_j (List.getElem?_eq_getElem j_lt) there
    have key : entries[j].1 = .text (carriedBy present fields)[j].1 := by
      have same := congrArg (·[j]?) keys
      simpa [List.getElem?_map, List.getElem?_eq_getElem j_lt, at_j] using same
    rw [List.getElem_map, fieldItem, there, Option.elim_some, ← item, ← key]
  | tag cases tag => rfl
  | payload found here ih => rw [toItem, payloadItem_of_findCase _ found, ih]

/-- **Absent fields cost nothing and positions never shift.** By position an accepted record goes as a
sequence that ends with the last field needed, with the item of a field at its index, or nil if the
field carries nothing. By name it goes as a map with one entry for every field that carries something,
in the schema's order. What is in the fields is laid out in the same way. -/
theorem toItem_record {fields : List (String × Schema)} {present : Fields Value}
    (distinct : (Fields.names fields).Nodup)
    (accepted : check (.record fields) (.record present) = none) :
    (∃ items, toItem .positional (.record fields) (.record present) = .array items ∧
      EndsAfter (Needed present) fields items.length ∧
      ∀ (j : Nat) (field : String × Schema) (item : Item), fields[j]? = some field →
        items[j]? = some item →
        (field.2.carried (Fields.get? field.1 present) = none → item = .nil) ∧
        ∀ v, Fields.get? field.1 present = some v →
          item = toItem .positional field.2 v ∧ LaidOut .positional field.2 v item) ∧
    ∃ entries, toItem .named (.record fields) (.record present) = .map entries ∧
      entries.map Prod.fst = (carriedBy present fields).map (fun field => Item.text field.1) ∧
      (entries.map Prod.fst).Nodup ∧
      ∀ (j : Nat) (field : String × Schema) (key item : Item),
        (carriedBy present fields)[j]? = some field → entries[j]? = some (key, item) →
        ∃ v, Fields.get? field.1 present = some v ∧
          item = toItem .named field.2 v ∧ LaidOut .named field.2 v item := by
  have fields_laidOut {layout : Layout} {field : String × Schema} {v : Value} (named : field ∈ fields)
      (there : Fields.get? field.1 present = some v) :
      LaidOut layout field.2 v (toItem layout field.2 v) := by
    have fine := check_record_eq_none_iff.mp accepted field.1 field.2 named
    rw [there] at fine
    exact laidOut_toItem fine
  refine ⟨⟨_, by rw [toItem], endsAfter_positionalItems, ?_⟩,
    _, by rw [toItem], keys_namedEntries, keys_namedEntries ▸ nodup_keys distinct, ?_⟩
  · intro j field item at_j sent
    refine ⟨fun nothing => ?_, fun v there => ?_⟩
    · rw [getElem?_positionalItems at_j sent, fieldItem_of_carried_eq_none nothing]
    · have same := eq_toItem_of_positionalItems at_j sent there
      exact ⟨same, same ▸ fields_laidOut (List.mem_of_getElem? at_j) there⟩
  · intro j field key item at_j sent
    obtain ⟨named, v, there⟩ := exists_of_mem_carriedBy (List.mem_of_getElem? at_j)
    have same := eq_toItem_of_namedEntries at_j sent there
    exact ⟨v, there, same, same ▸ fields_laidOut named there⟩

/-- A record inside of a record: optional fields that carry nothing are left out at the end of both, and
a null that is required is not. -/
theorem toItem_record_page :
    let page : List (String × Schema) := [("from", .int), ("until", .optional .int)]
    let fields : List (String × Schema) := [("id", .text), ("limit", .optional .int),
      ("page", .record page), ("note", .any), ("seen", .optional .bool), ("score", .optional .float)]
    let first : Fields Value := [("from", .int 1), ("until", .null)]
    let present : Fields Value := [("id", .text "a"), ("note", .null), ("page", .record first),
      ("seen", .null)]
    (Fields.names fields).Nodup ∧ check (.record fields) (.record present) = none ∧
      toItem .positional (.record fields) (.record present)
        = .array [.text "a", .nil, .array [.int 1], .nil] ∧
      EndsAfter (Needed present) fields 4 ∧
      LaidOut .positional (.record page) (.record first) (.array [.int 1]) ∧
      toItem .named (.record fields) (.record present)
        = .map [(.text "id", .text "a"), (.text "page", .map [(.text "from", .int 1)]),
          (.text "note", .nil)] ∧
      LaidOut .named (.record page) (.record first) (.map [(.text "from", .int 1)]) := by
  intro page fields first present
  have distinct : (Fields.names fields).Nodup := by decide
  have accepted : check (.record fields) (.record present) = none := rfl
  obtain ⟨⟨items, by_position, ends, each⟩, entries, by_name, -, -, each'⟩ :=
    toItem_record distinct accepted
  obtain rfl : [.text "a", .nil, .array [.int 1], .nil] = items := Item.array.inj by_position
  obtain rfl : [(.text "id", .text "a"), (.text "page", .map [(.text "from", .int 1)]),
    (.text "note", .nil)] = entries := Item.map.inj by_name
  obtain ⟨-, page_by_position⟩ := each 2 ("page", .record page) (.array [.int 1]) rfl rfl
  obtain ⟨v, there, -, page_by_name⟩ :=
    each' 1 ("page", .record page) (.text "page") (.map [(.text "from", .int 1)]) rfl rfl
  obtain rfl : .record first = v := Option.some.inj there
  exact ⟨distinct, accepted, by_position, ends, (page_by_position (.record first) rfl).2, by_name,
    page_by_name⟩

end CertifiedCalls.Schema
