import CertifiedCalls.Proofs.Codec.Absence
import CertifiedCalls.Proofs.Codec.LongNames
import CertifiedCalls.Proofs.Codec.Sendable

/-! # Canonical forms
A reply may come in many forms: records by position or by name, numbers as texts, byte strings as
sequences, wide integers, and anything at all where the schema takes anything. Whatever is read from
it can be written by the same schema, in either layout, and is read back as it is
(`decode_canonical`), unless a key that is no text has given it a name that no string holds
(`not_canonical_of_leastDoubles`). -/

namespace CertifiedCalls

open MessagePack (Item)
open MessagePack.Item (AllShort EntriesShort depthOfItems depthOfEntries)

/-! ### Items that can be written again -/

namespace Value

mutual

/-- The names of the records of a value **are short**. -/
def NamesShort : Value → Prop
  | .array items => AllNamesShort items
  | .record fields => FieldsNamesShort fields
  | .variant _ (some payload) => payload.NamesShort
  | _ => True

/-- The names in values are short. -/
def AllNamesShort : List Value → Prop
  | [] => True
  | v :: rest => v.NamesShort ∧ AllNamesShort rest

/-- The names of fields and those in their values are short. -/
def FieldsNamesShort : List (String × Value) → Prop
  | [] => True
  | (name, v) :: rest =>
    (Bytes.ofText name).length < 4294967296 ∧ v.NamesShort ∧ FieldsNamesShort rest

end

/-- The names in values are short when those in each value are. -/
theorem allNamesShort_iff {items : List Value} :
    AllNamesShort items ↔ ∀ v ∈ items, v.NamesShort := by
  induction items with
  | nil => exact ⟨fun _ _ mem => absurd mem List.not_mem_nil, fun _ => trivial⟩
  | cons v rest ih => rw [AllNamesShort, List.forall_mem_cons, ih]

/-- The names of fields are short when each is and those in its value are. -/
theorem fieldsNamesShort_iff {fields : List (String × Value)} :
    FieldsNamesShort fields ↔ ∀ field ∈ fields,
      (Bytes.ofText field.1).length < 4294967296 ∧ field.2.NamesShort := by
  induction fields with
  | nil => exact ⟨fun _ _ mem => absurd mem List.not_mem_nil, fun _ => trivial⟩
  | cons field rest ih => rw [FieldsNamesShort, List.forall_mem_cons, ih, and_assoc]

end Value

namespace MessagePack.Item

/-- An item that is read as a value is **tame** within a depth when it fits the format and is no
deeper, and the names of the value are short: either the item is so small that they cannot be long,
or they are. -/
structure Tame (d : Nat) (item : Item) (v : Value) : Prop where
  /-- The item fits the format. -/
  fits : item.Fits
  /-- The item is no deeper. -/
  shallow : item.depth ≤ d
  /-- The names are short. -/
  names : item.size < 67108864 ∨ v.NamesShort

/-- An item **stands in** another, as an element or under a key. -/
inductive Child : Item → Item → Prop
  /-- As an element. -/
  | array {item : Item} {items : List Item} (mem : item ∈ items) : Child item (.array items)
  /-- Under a key. -/
  | map {key item : Item} {entries : List (Item × Item)} (mem : (key, item) ∈ entries) :
    Child item (.map entries)

/-- An element is no deeper than the elements of its sequence. -/
theorem depth_le_of_mem {item : Item} {items : List Item} (mem : item ∈ items) :
    item.depth ≤ depthOfItems items := by
  induction items with
  | nil => exact absurd mem List.not_mem_nil
  | cons first rest ih =>
    rw [depthOfItems]
    rcases List.mem_cons.mp mem with rfl | later
    · exact Nat.le_max_left _ _
    · exact Nat.le_trans (ih later) (Nat.le_max_right _ _)

/-- What stands under a key is no deeper than the entries of its map. -/
theorem depth_le_of_mem_entries {key item : Item} {entries : List (Item × Item)}
    (mem : (key, item) ∈ entries) : item.depth ≤ depthOfEntries entries := by
  induction entries with
  | nil => exact absurd mem List.not_mem_nil
  | cons first rest ih =>
    rw [depthOfEntries]
    rcases List.mem_cons.mp mem with rfl | later
    · exact Nat.le_trans (Nat.le_max_right _ _) (Nat.le_max_left _ _)
    · exact Nat.le_trans (ih later) (Nat.le_max_right _ _)

/-- An element is no longer than the elements of its sequence. -/
theorem size_le_of_mem {item : Item} {items : List Item} (mem : item ∈ items) :
    item.size ≤ sizeOfItems items := by
  induction items with
  | nil => exact absurd mem List.not_mem_nil
  | cons first rest ih =>
    rw [sizeOfItems]
    rcases List.mem_cons.mp mem with rfl | later
    · exact Nat.le_add_right _ _
    · exact Nat.le_trans (ih later) (Nat.le_add_left _ _)

/-- A key and its value are no longer than the entries of their map. -/
theorem size_le_of_mem_entries {entry : Item × Item} {entries : List (Item × Item)}
    (mem : entry ∈ entries) : entry.1.size + entry.2.size ≤ sizeOfEntries entries := by
  induction entries with
  | nil => exact absurd mem List.not_mem_nil
  | cons first rest ih =>
    rw [sizeOfEntries]
    rcases List.mem_cons.mp mem with rfl | later
    · exact Nat.le_add_right _ _
    · exact Nat.le_trans (ih later) (Nat.le_add_left _ _)

/-- What stands in an item lies deeper. -/
theorem Child.depth_lt {inner outer : Item} (child : Child inner outer) :
    inner.depth < outer.depth := by
  cases child with
  | array mem => exact Nat.lt_succ_of_le (depth_le_of_mem mem)
  | map mem => exact Nat.lt_succ_of_le (depth_le_of_mem_entries mem)

/-- What stands in an item is shorter. -/
theorem Child.size_lt {inner outer : Item} (child : Child inner outer) :
    inner.size < outer.size := by
  cases child with
  | array mem => exact Nat.lt_succ_of_le (size_le_of_mem mem)
  | map mem =>
    exact Nat.lt_succ_of_le (Nat.le_trans (Nat.le_add_left _ _) (size_le_of_mem_entries mem))

/-- What stands in an item that fits fits. -/
theorem Child.fits {inner outer : Item} (child : Child inner outer) (h : outer.Fits) :
    inner.Fits := by
  cases child with
  | array mem => exact allFit_iff.mp h.2 _ mem
  | map mem => exact (entriesFit_iff.mp h.2 _ mem).2

/-- What stands in a tame item, and is read as a part of its value, is tame, one level further
down. -/
theorem Tame.child {d : Nat} {inner outer : Item} {v w : Value} (h : outer.Tame (d + 1) v)
    (child : Child inner outer) (part : v.NamesShort → w.NamesShort) : inner.Tame d w := by
  have deeper := child.depth_lt
  have shallow := h.shallow
  exact ⟨child.fits h.fits, by omega, h.names.imp (Nat.lt_trans child.size_lt) part⟩

/-- The name that a key of a small item gives is short. -/
theorem length_fieldName_lt {key : Item} (fits : key.Fits) (small : key.size < 67108864) :
    (Bytes.ofText (fieldName key)).length < 4294967296 := by
  have bound := utf8ByteSize_toText_le fits
  have shown : key.toText.utf8ByteSize < 4294967296 := by omega
  cases key with
  | text s => exact fits
  | brokenText octets => exact (by decide : (Bytes.ofText "").length < 4294967296)
  | _ => exact shown

end MessagePack.Item

/-! ### Anything -/

namespace Value

/-- Values all of which are plain. -/
theorem allPlain_iff {items : List Value} : AllPlain items ↔ ∀ v ∈ items, v.Plain := by
  induction items with
  | nil => exact ⟨fun _ _ mem => absurd mem List.not_mem_nil, fun _ => trivial⟩
  | cons v rest ih => rw [AllPlain, List.forall_mem_cons, ih]

/-- Fields all of whose values are plain. -/
theorem fieldsPlain_iff {fields : List (String × Value)} :
    FieldsPlain fields ↔ ∀ field ∈ fields, field.2.Plain := by
  induction fields with
  | nil => exact ⟨fun _ _ mem => absurd mem List.not_mem_nil, fun _ => trivial⟩
  | cons field rest ih => rw [FieldsPlain, List.forall_mem_cons, ih]

/-- Laying out values one by one. -/
theorem toItems_eq_map (items : List Value) : toItems items = items.map toItem := by
  induction items with
  | nil => rfl
  | cons v rest ih => rw [toItems, ih, List.map_cons]

/-- Entries are readable when their names are short and their values readable. -/
theorem readable_toEntries {fields : List (String × Value)} {d : Nat}
    (each : ∀ field ∈ fields,
      (Bytes.ofText field.1).length < 4294967296 ∧ field.2.toItem.Readable d) :
    (toEntries fields).length = fields.length ∧ EntriesShort (toEntries fields) ∧
      depthOfEntries (toEntries fields) ≤ d := by
  induction fields with
  | nil => exact ⟨rfl, trivial, Nat.zero_le _⟩
  | cons field rest ih =>
    rw [List.forall_mem_cons] at each
    obtain ⟨⟨name, short, depth⟩, others⟩ := each
    obtain ⟨length, rest_short, rest_depth⟩ := ih others
    exact ⟨congrArg Nat.succ length, ⟨name, short, rest_short⟩,
      Nat.max_le.mpr ⟨Nat.max_le.mpr ⟨Nat.zero_le _, depth⟩, rest_depth⟩⟩

end Value

namespace Schema

/-- Without a schema values are laid out as they are. -/
theorem toItem_any (layout : Layout) (v : Value) : toItem layout .any v = v.toItem := by
  cases v <;> rfl

namespace Sendable

variable {d : Nat}

/-- A value of any kind without values inside it is sendable within every depth. -/
theorem anyLeaf {v : Value} (formed : v.WellFormed) (plain : v.Plain)
    (readable : v.toItem.Readable 0) : Schema.any.Sendable v d :=
  .mono ⟨trivial, formed, rfl, plain, trivial, fun layout => toItem_any layout v ▸ readable⟩
    (Nat.zero_le d)

/-- A sequence of few values of any kind is sendable. -/
theorem anyItems {items : List Value} (few : items.length < 4294967296)
    (each : ∀ v ∈ items, Schema.any.Sendable v d) : Schema.any.Sendable (.array items) (d + 1) := by
  have all : (Schema.array .any).Sendable (.array items) (d + 1) := .array trivial few each
  refine ⟨trivial, all.formed, rfl, Value.allPlain_iff.mpr all.plain, trivial, fun layout => ?_⟩
  have readable := all.readable layout
  simp only [toItem] at readable
  rw [toItem_any, Value.toItem, Value.toItems_eq_map]
  exact readable

/-- A record of few values of any kind with short names is sendable. -/
theorem anyFields {present : Fields Value} (ordered : Fields.Ordered present)
    (few : present.length < 4294967296)
    (each : ∀ field ∈ present,
      (Bytes.ofText field.1).length < 4294967296 ∧ Schema.any.Sendable field.2 d) :
    Schema.any.Sendable (.record present) (d + 1) := by
  refine ⟨trivial, ⟨ordered, fieldsWellFormed_of_forall fun field mem => (each field mem).2.formed⟩,
    rfl, Value.fieldsPlain_iff.mpr fun field mem => (each field mem).2.plain, trivial,
    fun layout => ?_⟩
  obtain ⟨length, short, depth⟩ := Value.readable_toEntries fun field mem =>
    ⟨(each field mem).1, toItem_any layout field.2 ▸ (each field mem).2.readable layout⟩
  rw [toItem_any, Value.toItem]
  exact ⟨⟨length ▸ few, short⟩, Nat.succ_le_succ depth⟩

end Sendable

/-- **Anything that is read** is sendable. -/
theorem sendable_ofItem {item : Item} {d : Nat} (tame : item.Tame d (Value.ofItem item)) :
    Schema.any.Sendable (Value.ofItem item) d := by
  -- On the item, for all depths. What stands in it is tame one level further down, which is where
  -- the value that is read from it stands.
  induction item generalizing d with
  | nil => exact .anyLeaf trivial trivial ⟨trivial, Nat.le_refl _⟩
  | bool b => exact .anyLeaf trivial trivial ⟨trivial, Nat.le_refl _⟩
  | int i =>
    obtain ⟨low, high⟩ := tame.fits
    rw [Value.ofItem]
    split
    · have small : i.toNat < 18446744073709551616 := by omega
      have bound : i.toNat < Value.natBound := Nat.lt_trans small (by decide)
      exact .anyLeaf bound small (Value.readable_natItem bound)
    · have value : (Int64.ofInt i).toInt = i := Int64.toInt_ofInt_of_le low (by omega)
      refine .anyLeaf trivial ?_ ⟨trivial, Nat.le_refl _⟩
      show (Int64.ofInt i).toInt < 0
      omega
  | single x => exact .anyLeaf trivial trivial ⟨trivial, Nat.le_refl _⟩
  | double x => exact .anyLeaf trivial trivial ⟨trivial, Nat.le_refl _⟩
  | text s => exact .anyLeaf trivial trivial ⟨tame.fits, Nat.le_refl _⟩
  | brokenText octets => exact .anyLeaf trivial trivial ⟨trivial, Nat.le_refl _⟩
  | binary octets => exact .anyLeaf trivial trivial ⟨tame.fits, Nat.le_refl _⟩
  | ext type octets => exact .anyLeaf trivial trivial ⟨tame.fits.2, Nat.le_refl _⟩
  | array items ih =>
    have shallow : MessagePack.Item.depthOfItems items + 1 ≤ d := tame.shallow
    obtain ⟨e, rfl⟩ : ∃ e, d = e + 1 := ⟨d - 1, by omega⟩
    rw [Value.ofItem, Value.ofItems_eq_map] at tame ⊢
    refine .anyItems (by rw [List.length_map]; exact tame.fits.1) fun v mem => ?_
    obtain ⟨item, there, rfl⟩ := List.mem_map.mp mem
    exact ih item there
      (tame.child (.array there) fun names => Value.allNamesShort_iff.mp names _ mem)
  | map entries ih =>
    have shallow : MessagePack.Item.depthOfEntries entries + 1 ≤ d := tame.shallow
    obtain ⟨e, rfl⟩ : ∃ e, d = e + 1 := ⟨d - 1, by omega⟩
    rw [Value.ofItem, Value.ofEntries_eq_map] at tame ⊢
    refine .anyFields (Fields.ordered_ofList _) ?_ fun field mem => ?_
    · have few : entries.length < 4294967296 := tame.fits.1
      have gathered := Fields.length_ofList_le
        (entries.map fun entry => (fieldName entry.1, Value.ofItem entry.2))
      rw [List.length_map] at gathered
      omega
    · obtain ⟨⟨key, item⟩, there, rfl⟩ := List.mem_map.mp (Fields.mem_of_mem_ofList mem)
      refine ⟨?_, (ih _ there).2 (tame.child (.map there) fun names =>
        (Value.fieldsNamesShort_iff.mp names _ mem).2)⟩
      rcases tame.names with small | names
      · have part := Item.size_le_of_mem_entries there
        have whole : Item.sizeOfEntries entries + 1 < 67108864 := small
        exact Item.length_fieldName_lt (Item.entriesFit_iff.mp tame.fits.2 _ there).1 (by omega)
      · exact (Value.fieldsNamesShort_iff.mp names _ mem).1

/-! ### Schemas with short names -/

mutual

/-- A schema is **small** when its names and tags are short and its records have few fields. -/
def Small : Schema → Prop
  | .array element => element.Small
  | .optional inner => inner.Small
  | .record fields => fields.length < 4294967296 ∧ FieldsSmall fields
  | .variant cases => CasesSmall cases
  | _ => True

/-- The names of fields are short and their schemas small. -/
def FieldsSmall : List (String × Schema) → Prop
  | [] => True
  | (name, schema) :: rest =>
    (Bytes.ofText name).length < 4294967296 ∧ schema.Small ∧ FieldsSmall rest

/-- The tags of cases are short and the schemas of their payloads small. -/
def CasesSmall : List (String × Option Schema) → Prop
  | [] => True
  | (tag, none) :: rest => (Bytes.ofText tag).length < 4294967296 ∧ CasesSmall rest
  | (tag, some schema) :: rest =>
    (Bytes.ofText tag).length < 4294967296 ∧ schema.Small ∧ CasesSmall rest

end

/-- Small fields have short names and small schemas. -/
theorem FieldsSmall.of_mem {fields : List (String × Schema)} (h : FieldsSmall fields) :
    ∀ field ∈ fields, (Bytes.ofText field.1).length < 4294967296 ∧ field.2.Small := by
  induction fields with
  | nil => exact fun _ mem => absurd mem List.not_mem_nil
  | cons first rest ih =>
    obtain ⟨name, here, later⟩ := h
    exact List.forall_mem_cons.mpr ⟨⟨name, here⟩, ih later⟩

/-- Small cases have short tags and payloads of small schemas. -/
theorem CasesSmall.of_mem {cases : List (String × Option Schema)} (h : CasesSmall cases) :
    ∀ case ∈ cases, (Bytes.ofText case.1).length < 4294967296 ∧
      ∀ schema, case.2 = some schema → schema.Small := by
  induction cases with
  | nil => exact fun _ mem => absurd mem List.not_mem_nil
  | cons first rest ih =>
    obtain ⟨tag, payload⟩ := first
    cases payload with
    | none => exact List.forall_mem_cons.mpr ⟨⟨h.1, nofun⟩, ih h.2⟩
    | some schema =>
      obtain ⟨short, here, later⟩ := h
      refine List.forall_mem_cons.mpr ⟨⟨short, fun _ eq => ?_⟩, ih later⟩
      exact Option.some.inj eq ▸ here

/-! ### Whatever is read -/

/-- The item of the last entry of a name stands in the map. -/
theorem child_of_entry? {name : String} {item : Item} {entries : List (Item × Item)}
    (last : Item.entry? name entries = some item) : Item.Child item (.map entries) := by
  obtain ⟨⟨key, _⟩, mem, eq⟩ := List.mem_map.mp (Fields.mem_of_last?_eq_some last)
  cases eq
  exact .map mem

/-- As many octets are read as there are values. -/
theorem length_of_mapM_eq_some {values : List Value} {octets : Bytes}
    (all : values.mapM octet? = some octets) : octets.length = values.length := by
  induction values generalizing octets with
  | nil =>
    obtain rfl := Option.some.inj all
    rfl
  | cons v rest ih =>
    rw [List.mapM_cons] at all
    obtain ⟨octet, -, all⟩ := Option.bind_eq_some_iff.mp all
    obtain ⟨others, later, eq⟩ := Option.bind_eq_some_iff.mp all
    obtain rfl := Option.some.inj eq
    rw [List.length_cons, ih later, List.length_cons]

/-- What was sent for a field stands in the item. -/
theorem child_of_part?_record {fields : List (String × Schema)} {name : String} {item : Item}
    {part : Schema × Item} (sent : part? (.field name) (.record fields) item = some part) :
    Item.Child part.2 item := by
  cases item with
  | array items => exact .array (mem_of_mem_placed (Fields.mem_of_get?_eq_some sent)).2
  | map entries =>
    obtain ⟨schema, -, there⟩ := Option.bind_eq_some_iff.mp sent
    obtain ⟨item, last, rfl⟩ := Option.map_eq_some_iff.mp there
    exact child_of_entry? last
  | _ => cases sent

namespace Reads

variable {item : Item} {v : Value} {d : Nat}

/-- A text is read from a text. -/
theorem text (h : Schema.text.Reads item v) (fits : item.Fits) :
    ∃ s, v = .text s ∧ (Bytes.ofText s).length < 4294967296 := by
  obtain ⟨-, rfl, accepted⟩ := h
  cases item with
  | text s => exact ⟨s, rfl, fits⟩
  | int i =>
    rw [Value.ofItem] at accepted
    split at accepted <;> cases accepted
  | _ => cases accepted

/-- A byte string is read from octets or from a sequence of them, and is as short. -/
theorem bytes {length : Option Nat} (h : (Schema.bytes length).Reads item v) (fits : item.Fits) :
    ∃ octets, v = .bytes octets ∧ octets.length < 4294967296 := by
  obtain ⟨-, rfl, accepted⟩ := h
  cases item with
  | binary octets => exact ⟨octets, rfl, fits⟩
  | ext type octets => exact ⟨octets, rfl, fits.2⟩
  | array items =>
    rw [Value.ofItem, Value.ofItems_eq_map, conform, bytesOfItems] at accepted ⊢
    split at accepted
    · rename_i octets all
      refine ⟨octets, rfl, ?_⟩
      rw [length_of_mapM_eq_some all, List.length_map]
      exact fits.1
    · cases length <;> cases accepted
  | int i =>
    rw [Value.ofItem] at accepted
    split at accepted <;> cases length <;> cases accepted
  | _ => cases length <;> cases accepted

/-- **Whatever is read** from a tame item is sendable. -/
theorem sendable {schema : Schema} (h : schema.Reads item v) (small : schema.Small)
    (tame : item.Tame d v) : schema.Sendable v d := by
  -- On the schema, for all items. Each part of the value is read, under an inner schema, from an item
  -- that stands in this one; a case that was sent as a map to nil loses a level, none gains one.
  induction schema generalizing item v d with
  | any =>
    obtain rfl := h.eq_ofItem
    exact sendable_ofItem tame
  | null =>
    have accepted := h.accepted
    cases v with
    | null => exact .ofScalar rfl (by rintro ⟨⟩) trivial accepted ⟨trivial, Nat.le_refl _⟩
    | _ => cases accepted
  | bool =>
    have accepted := h.accepted
    cases v with
    | bool b => exact .ofScalar rfl (by rintro ⟨⟩) trivial accepted ⟨trivial, Nat.le_refl _⟩
    | _ => cases accepted
  | nat width =>
    have accepted := h.accepted
    cases v with
    | nat n =>
      rw [check] at accepted
      split at accepted
      · rename_i le
        exact .number le
      · cases accepted
    | _ => cases accepted
  | int =>
    have accepted := h.accepted
    cases v with
    | int i => exact .ofScalar rfl (by rintro ⟨⟩) trivial accepted ⟨trivial, Nat.le_refl _⟩
    | _ => cases accepted
  | float =>
    have accepted := h.accepted
    cases v with
    | float x => exact .ofScalar rfl (by rintro ⟨⟩) trivial accepted ⟨trivial, Nat.le_refl _⟩
    | _ => cases accepted
  | text =>
    obtain ⟨s, rfl, short⟩ := h.text tame.fits
    exact .text short
  | bytes length =>
    obtain ⟨octets, rfl, short⟩ := h.bytes tame.fits
    exact .bytes h.accepted short
  | array element ih =>
    obtain ⟨items, rfl, rfl, each⟩ := h.array
    have shallow : MessagePack.Item.depthOfItems items + 1 ≤ d := tame.shallow
    obtain ⟨e, rfl⟩ : ∃ e, d = e + 1 := ⟨d - 1, by omega⟩
    refine .array h.distinct (by rw [List.length_map]; exact tame.fits.1) fun v mem => ?_
    obtain ⟨item, there, rfl⟩ := List.mem_map.mp mem
    exact ih (each item there) small
      (tame.child (.array there) fun names => Value.allNamesShort_iff.mp names _ mem)
  | optional inner ih =>
    rcases h.optional with rfl | ⟨-, h⟩
    · exact .ofAbsent h.distinct
    · exact .ofPresent (ih h small tame)
  | record fields ih =>
    obtain ⟨present, rfl, ordered, kind⟩ := h.record
    have shallow : 0 < item.depth := by
      rcases kind with ⟨items, rfl⟩ | ⟨entries, rfl⟩ <;> exact Nat.succ_pos _
    have := tame.shallow
    obtain ⟨e, rfl⟩ : ∃ e, d = e + 1 := ⟨d - 1, by omega⟩
    obtain ⟨few, all_small⟩ := small
    refine .ofFields h.distinct few (fun field mem => (all_small.of_mem field mem).1) ordered
      h.accepted fun name v mem => ?_
    obtain ⟨part, sent, named, read, kept⟩ :=
      h.field (Fields.get?_eq_some_of_mem ordered.nodup_names mem)
    exact ⟨part.1, named, ih name part.1 named read (all_small.of_mem _ named).2
      (tame.child (child_of_part?_record sent) fun names =>
        (Value.fieldsNamesShort_iff.mp names _ mem).2), kept⟩
  | variant cases ih =>
    rcases h.variant with ⟨tag, rfl, found, rfl⟩ | ⟨entries, tag, payload, rfl, last, case⟩
    · exact .ofTag h.distinct found (CasesSmall.of_mem small _ (mem_of_findCase found)).1
    · rcases case with ⟨found, -, rfl⟩ | ⟨schema, w, found, rfl, read⟩
      · exact .ofTag h.distinct found (CasesSmall.of_mem small _ (mem_of_findCase found)).1
      · have mem := mem_of_findCase found
        obtain ⟨short, payload_small⟩ := CasesSmall.of_mem small _ mem
        have shallow : MessagePack.Item.depthOfEntries entries + 1 ≤ d := tame.shallow
        obtain ⟨e, rfl⟩ : ∃ e, d = e + 1 := ⟨d - 1, by omega⟩
        have child : Item.Child payload (.map entries) :=
          child_of_entry? ((last tag).trans (if_pos rfl))
        exact .ofPayload h.distinct found short
          (ih tag schema mem read (payload_small schema rfl) (tame.child child id))

end Reads

/-- **Decoding gives a canonical form**: a value that is decoded from a message, whatever the form of
the message, is encoded in either layout and decoded again as it is. The message nests at most 500
deep, and names are short: those of the schema, and those that the value takes from the keys of maps
where the schema takes anything. The latter need no mention in messages of fewer than `2 ^ 26`
octets: a key that is no text gives the text that shows it, which is less than 64 times as long. -/
theorem decode_canonical {schema : Schema} (distinct : schema.Distinct) (small : schema.Small)
    {octets : Bytes} {v : Value} (decoded : schema.decode octets = .ok v)
    (shallow : ∀ item, Item.read octets = .ok (item, []) → item.depth ≤ 500)
    (short : octets.length < 67108864 ∨ v.NamesShort) (layout : Layout) :
    ∃ others, schema.encode layout v = .ok others ∧ schema.decode others = .ok v := by
  obtain ⟨item, read, reads⟩ := reads_of_decode distinct decoded
  have size : item.size ≤ octets.length := Item.size_le_of_read read
  have tame : item.Tame 500 v :=
    ⟨Item.fits_of_read read, shallow item read, short.imp_left (Nat.lt_of_le_of_lt size)⟩
  have sendable := reads.sendable small tame
  have encoded := encode_of_accepted sendable.accepted layout
  exact ⟨_, encoded, sendable.decode (Nat.le_refl _) encoded⟩

/-- A record by position with an item too many: a number as a text, a byte string as a sequence, a
case as a map to nil, a nil note, and a map from a number to a wide one. -/
theorem decode_canonical_positional :
    let schema : Schema := .record [("id", .nat .bits128), ("data", .bytes none),
      ("kind", .variant [("none", none), ("some", some .int)]), ("note", .optional .text),
      ("more", .any)]
    let octets : Bytes := [0x96, 0xA1, 0x37, 0x92, 0x01, 0xCC, 0xFF,
      0x81, 0xA4, 0x6E, 0x6F, 0x6E, 0x65, 0xC0, 0xC0, 0x81, 0x05, 0xCD, 0x00, 0x01, 0xC3]
    let v : Value := .record [("data", .bytes [1, 255]), ("id", .nat 7),
      ("kind", .variant "none" none), ("more", .record [("5", .nat 1)])]
    schema.decode octets = .ok v ∧ ∀ layout, ∃ others,
      schema.encode layout v = .ok others ∧ schema.decode others = .ok v := by
  intro schema octets v
  have distinct : schema.Distinct :=
    ⟨by decide, trivial, trivial, ⟨trivial, trivial⟩, trivial, trivial, trivial⟩
  have small : schema.Small :=
    ⟨by decide, by decide, trivial, by decide, trivial, by decide,
      ⟨by decide, by decide, trivial, trivial⟩, by decide, trivial, by decide, trivial, trivial⟩
  have decoded : schema.decode octets = .ok v := by cbv
  have read : Item.read octets = .ok (.array [.text "7", .array [.int 1, .int 255],
      .map [(.text "none", .nil)], .nil, .map [(.int 5, .int 1)], .bool true], []) := by cbv
  have shallow : ∀ item, Item.read octets = .ok (item, []) → item.depth ≤ 500 := by
    intro item read'
    obtain rfl := (Prod.mk.inj (Except.ok.inj (read'.symm.trans read))).1
    decide
  exact ⟨decoded, decode_canonical distinct small decoded shallow (.inl (by decide))⟩

/-- A map from a sequence of 13094413 least positive doubles to nil has fewer than `2 ^ 28` octets, and
the name that it gives has more than `2 ^ 32`. The value that is decoded from it, where a schema takes
anything, is not decoded from what is encoded for the value. -/
theorem not_canonical_of_leastDoubles :
    let item : Item := .map [(.leastDoubles 13094413, .nil)]
    let v : Value := .record [(Item.toText (.leastDoubles 13094413), .null)]
    any.Distinct ∧ any.Small ∧ item.write.length < 268435456 ∧ item.depth ≤ 500 ∧
      Item.read item.write = .ok (item, []) ∧ any.decode item.write = .ok v ∧
      ∀ layout, ∃ others, any.encode layout v = .ok others ∧ any.decode others ≠ .ok v := by
  have long : 4294967296 ≤ (Item.leastDoubles 13094413).toText.utf8ByteSize :=
    Nat.le_trans (by decide) (Item.utf8ByteSize_toText_leastDoubles 13094412).ge
  obtain ⟨length, depth, read, decoded⟩ := decode_leastDoubles (n := 13094413) (by decide)
  exact ⟨trivial, trivial, Nat.lt_of_le_of_lt length (by decide), depth.trans_le (by decide), read,
    decoded, decode_ne_of_long long .null⟩

end Schema

end CertifiedCalls
