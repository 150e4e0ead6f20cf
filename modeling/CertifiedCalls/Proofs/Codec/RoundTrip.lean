import CertifiedCalls.Codec.Message
import CertifiedCalls.Proofs.Codec.Conformance
import CertifiedCalls.Proofs.MessagePack.RoundTrip

/-! # Messages are read back
A value that its schema accepts is written, in either layout, as a message that is read back as the
normal form of the value (`decode_encode`). What is laid out has no integer of more than 64 bits, so
a message that is short enough for the format fits it (`fits_of_short`). -/

namespace CertifiedCalls

open MessagePack (Item)
open MessagePack.Item (AllFit AllShort EntriesFit EntriesShort)

namespace Value

/-- The item of a natural number fits when it is short. -/
theorem natItem_fits_of_short {n : Nat} (short : (natItem n).Short) : (natItem n).Fits := by
  rw [natItem] at short ⊢
  split at short
  · rename_i small
    rw [if_pos small]
    exact ⟨by omega, by omega⟩
  · rename_i large
    rw [if_neg large]
    exact short

mutual

/-- The item of a value fits when it is short. -/
theorem fits_of_short (v : Value) (short : v.toItem.Short) : v.toItem.Fits := by
  cases v with
  | null | bool | float => trivial
  | nat n => exact natItem_fits_of_short short
  | int i =>
    have low : -9223372036854775808 ≤ i.toInt := i.le_toInt
    have high : i.toInt < 9223372036854775808 := i.toInt_lt
    exact ⟨low, by omega⟩
  | text s => exact short
  | bytes octets => exact short
  | array items => exact ⟨short.1, allFit_of_short items short.2⟩
  | record fields => exact ⟨short.1, entriesFit_of_short fields short.2⟩
  | variant tag payload =>
    match payload, short with
    | none, short => exact short
    | some v, ⟨one, tag_short, short, _⟩ => exact ⟨one, tag_short, fits_of_short v short, trivial⟩

/-- The items of values fit when they are short. -/
theorem allFit_of_short (items : List Value) (short : AllShort (toItems items)) :
    AllFit (toItems items) := by
  match items, short with
  | [], _ => trivial
  | v :: rest, ⟨short, rest_short⟩ => exact ⟨fits_of_short v short, allFit_of_short rest rest_short⟩

/-- The entries of fields fit when they are short. -/
theorem entriesFit_of_short (fields : List (String × Value))
    (short : EntriesShort (toEntries fields)) : EntriesFit (toEntries fields) := by
  match fields, short with
  | [], _ => trivial
  | (name, v) :: rest, ⟨name_short, short, rest_short⟩ =>
    exact ⟨name_short, fits_of_short v short, entriesFit_of_short rest rest_short⟩

end

end Value

namespace Schema

section Lengths

variable {layout : Layout}

/-- The items of a sequence fit when they are short, given that the elements' do. -/
theorem allFit_map_of_short {element : Schema} (ih : ∀ v, (toItem layout element v).Short →
      (toItem layout element v).Fits) (items : List Value)
    (short : AllShort (items.map fun v => toItem layout element v)) :
    AllFit (items.map fun v => toItem layout element v) := by
  induction items with
  | nil => trivial
  | cons v rest again => exact ⟨ih v short.1, again short.2⟩

/-- The items of a record's fields fit when they are short, given that the fields' do. -/
theorem allFit_positionalItems_of_short {fields : List (String × Schema)}
    (ih : ∀ name schema, (name, schema) ∈ fields → ∀ v, (toItem layout schema v).Short →
      (toItem layout schema v).Fits) (present : Fields Value)
    (short : AllShort (positionalItems layout fields present)) :
    AllFit (positionalItems layout fields present) := by
  induction fields with
  | nil => trivial
  | cons first rest again =>
    obtain ⟨name, schema⟩ := first
    have later := again fun n s mem => ih n s (List.mem_cons_of_mem _ mem)
    have onwards (item : Item) (fits : item.Short → item.Fits) (last : Bool)
        (short : AllShort (if last then [] else item :: positionalItems layout rest present)) :
        AllFit (if last then [] else item :: positionalItems layout rest present) := by
      cases last with
      | true => trivial
      | false => exact ⟨fits short.1, later short.2⟩
    rw [positionalItems] at short ⊢
    cases found : Fields.get? name present with
    | none =>
      rw [found] at short
      exact onwards .nil (fun _ => trivial) _ short
    | some v =>
      rw [found] at short
      exact onwards _ (ih name schema List.mem_cons_self v) _ short

/-- The entries of a record's fields fit when they are short, given that the fields' do. -/
theorem entriesFit_namedEntries_of_short {fields : List (String × Schema)}
    (ih : ∀ name schema, (name, schema) ∈ fields → ∀ v, (toItem layout schema v).Short →
      (toItem layout schema v).Fits) (present : Fields Value)
    (short : EntriesShort (namedEntries layout fields present)) :
    EntriesFit (namedEntries layout fields present) := by
  induction fields with
  | nil => trivial
  | cons first rest again =>
    obtain ⟨name, schema⟩ := first
    have later := again fun n s mem => ih n s (List.mem_cons_of_mem _ mem)
    rw [namedEntries] at short ⊢
    cases found : Fields.get? name present with
    | none =>
      rw [found] at short
      exact later short
    | some v =>
      rw [found] at short
      simp only at short ⊢
      split at short
      · rename_i dropped
        rw [if_pos dropped]
        exact later short
      · rename_i kept
        rw [if_neg kept]
        exact ⟨short.1, ih name schema List.mem_cons_self v short.2.1, later short.2.2⟩

/-- The item of a payload fits when it is short, given that the items of the cases do. -/
theorem payloadItem_fits_of_short {cases : List (String × Option Schema)}
    (ih : ∀ tag schema, (tag, some schema) ∈ cases → ∀ v, (toItem layout schema v).Short →
      (toItem layout schema v).Fits) (tag : String) (v : Value)
    (short : (payloadItem layout cases tag v).Short) : (payloadItem layout cases tag v).Fits := by
  induction cases with
  | nil => exact v.fits_of_short short
  | cons first rest again =>
    obtain ⟨t, inner⟩ := first
    have later := again fun n s mem => ih n s (List.mem_cons_of_mem _ mem)
    cases inner with
    | none =>
      rw [payloadItem_cons] at short ⊢
      split at short
      · rename_i e
        rw [if_pos e]
        exact v.fits_of_short short
      · rename_i ne
        rw [if_neg ne]
        exact later short
    | some schema =>
      rw [payloadItem_cons] at short ⊢
      split at short
      · rename_i e
        rw [if_pos e]
        exact ih t schema List.mem_cons_self v short
      · rename_i ne
        rw [if_neg ne]
        exact later short

/-- What is laid out fits the format when it is short. -/
theorem fits_of_short {schema : Schema} {v : Value} (short : (schema.toItem layout v).Short) :
    (schema.toItem layout v).Fits := by
  induction schema generalizing v with
  | any | null | bool | nat | int | float | text | bytes => exact v.fits_of_short short
  | array element ih =>
    cases v with
    | array items => exact ⟨short.1, allFit_map_of_short (fun v => ih) items short.2⟩
    | _ => exact Value.fits_of_short _ short
  | optional inner ih =>
    rw [toItem] at short ⊢
    split at short
    · rename_i null
      rw [if_pos null]
      trivial
    · rename_i present
      rw [if_neg present]
      exact ih short
  | record fields ih =>
    cases v with
    | record present =>
      cases layout with
      | positional =>
        exact ⟨short.1, allFit_positionalItems_of_short (fun n s mem v => ih n s mem) _ short.2⟩
      | named =>
        exact ⟨short.1, entriesFit_namedEntries_of_short (fun n s mem v => ih n s mem) _ short.2⟩
    | _ => exact Value.fits_of_short _ short
  | variant cases ih =>
    cases v with
    | variant tag payload =>
      cases payload with
      | none => exact short
      | some v =>
        obtain ⟨one, tag_short, short, _⟩ := short
        exact ⟨one, tag_short, payloadItem_fits_of_short (fun t s mem v => ih t s mem) tag v short,
          trivial⟩
    | _ => exact Value.fits_of_short _ short

end Lengths

/-- What is decoded is the one item of the octets, conformed to the schema and accepted by it. -/
theorem decode_eq_ok_iff {schema : Schema} {octets : Bytes} {v : Value} :
    schema.decode octets = .ok v ↔ ∃ item, Item.read octets = .ok (item, []) ∧
      schema.conform (Value.ofItem item) = v ∧ schema.check v = none := by
  rw [decode]
  cases Item.read octets with
  | error cause => simp
  | ok found =>
    obtain ⟨item, rest⟩ := found
    cases rest with
    | cons _ _ => simp
    | nil =>
      simp only [List.isEmpty_nil, if_true, Except.ok.injEq, Prod.mk.injEq, and_true, exists_eq_left']
      cases accepted : schema.check (schema.conform (Value.ofItem item)) with
      | some fault =>
        simp only [reduceCtorEq, false_iff]
        rintro ⟨rfl, accepted'⟩
        rw [accepted'] at accepted
        cases accepted
      | none =>
        simp only [Except.ok.injEq]
        exact ⟨fun eq => ⟨eq, eq ▸ accepted⟩, And.left⟩

/-- What is laid out for a value **can be read back** when it is short enough for the format and
nested no deeper than is read. -/
def CanBeRead (schema : Schema) (layout : Layout) (v : Value) : Prop :=
  (schema.toItem layout v).Short ∧ (schema.toItem layout v).depth ≤ 500

/-- An accepted value is encoded as what is laid out for it. -/
theorem encode_of_accepted {schema : Schema} {v : Value} (accepted : schema.check v = none)
    (layout : Layout) : schema.encode layout v = .ok (schema.toItem layout v).write := by
  rw [encode, accepted]

/-- What one version of a schema lays out for a value, another decodes to the normal form of the value
under the schema that the two share. -/
theorem Shares.decode_write {shared written read : Schema} (h : Shares shared written read) {v : Value}
    (formed : v.WellFormed) (plain : shared.PlainAt v) (accepted : written.check v = none)
    {layout : Layout} (readable : written.CanBeRead layout v) :
    read.decode (written.toItem layout v).write = .ok (shared.normal v) := by
  obtain ⟨short, shallow⟩ := readable
  have item : Item.read (written.toItem layout v).write = .ok (written.toItem layout v, []) := by
    rw [← Item.read_write (fits_of_short short) (by omega) [], List.append_nil]
  exact decode_eq_ok_iff.mpr ⟨_, item, h.conform_ofItem_toItem layout formed plain accepted,
    h.check_normal formed (h.check_eq_none accepted)⟩

/-- An accepted value is **written and read back**: it is encoded, and the octets of a layout that can
be read back are decoded to its normal form, which is the value itself when the value is exact. -/
theorem decode_encode {schema : Schema} (distinct : schema.Distinct) {v : Value}
    (formed : v.WellFormed) (accepted : schema.check v = none) (plain : schema.PlainAt v) :
    (∀ layout, schema.CanBeRead layout v → ∃ octets, schema.encode layout v = .ok octets ∧
      schema.decode octets = .ok (schema.normal v) ∧
      (schema.Exact v → schema.decode octets = .ok v)) ∧
    (∀ a b, schema.CanBeRead a v → schema.CanBeRead b v → ∀ octets others,
      schema.encode a v = .ok octets → schema.encode b v = .ok others →
        schema.decode octets = schema.decode others) := by
  have written (layout : Layout) :
      schema.encode layout v = .ok (schema.toItem layout v).write :=
    encode_of_accepted accepted layout
  have read {layout : Layout} (h : schema.CanBeRead layout v) :
      schema.decode (schema.toItem layout v).write = .ok (schema.normal v) :=
    (Shares.refl distinct).decode_write formed plain accepted h
  constructor
  · intro layout h
    refine ⟨_, written layout, read h, fun exact => ?_⟩
    rw [read h, normal_of_exact exact]
  · intro a b h h' octets others first second
    rw [written] at first second
    obtain rfl := Except.ok.inj first
    obtain rfl := Except.ok.inj second
    rw [read h, read h']

/-- A record with a number of more than 64 bits, a tagged record, a null note and a field that its
schema does not name, written in both layouts and read back. -/
theorem decode_encode_record :
    let schema : Schema := .record [("size", .nat .bits128), ("note", .optional .text),
      ("kind", .variant [("none", none), ("some", some (.array (.record [("k", .int)])))])]
    let v : Value := .record
      [("extra", .bool true),
        ("kind", .variant "some" (some (.array [.record [("k", .int 5)]]))),
        ("note", .null), ("size", .nat 18446744073709551616)]
    ∃ octets others, schema.encode .positional v = .ok octets ∧ schema.encode .named v = .ok others ∧
      schema.decode others = schema.decode octets ∧
      schema.decode octets = .ok (.record
        [("kind", .variant "some" (some (.array [.record [("k", .int 5)]]))),
          ("size", .nat 18446744073709551616)]) := by
  intro schema v
  have distinct : schema.Distinct := by
    refine ⟨by decide, trivial, trivial, ⟨⟨by decide, trivial, trivial⟩, trivial⟩, trivial⟩
  have formed : v.WellFormed := by
    have one : Fields.Ordered [("k", Value.int 5)] := List.pairwise_singleton _ _
    have four : Fields.Ordered [("extra", Value.bool true),
        ("kind", .variant "some" (some (.array [.record [("k", .int 5)]]))),
        ("note", .null), ("size", .nat 18446744073709551616)] := by
      unfold Fields.Ordered
      decide +kernel
    refine ⟨four, trivial, ⟨⟨one, trivial, trivial⟩, trivial⟩, trivial, ?_, trivial⟩
    exact show 18446744073709551616 < Value.natBound by decide
  have plain : schema.PlainAt v := by
    simp [schema, v, PlainAt, FieldsPlainAt, PayloadPlainAt, Fields.get?]
  have by_position : schema.toItem .positional v
      = .array [.text "18446744073709551616", .nil, .map [(.text "some", .array [.array [.int 5]])]] :=
    rfl
  have by_name : schema.toItem .named v
      = .map [(.text "size", .text "18446744073709551616"),
          (.text "kind", .map [(.text "some", .array [.map [(.text "k", .int 5)]])])] :=
    rfl
  have readable : ∀ layout, schema.CanBeRead layout v := by
    intro layout
    constructor
    · cases layout with
      | positional =>
        rw [by_position]
        simp [Item.Short, AllShort, EntriesShort, Bytes.ofText]
        decide
      | named =>
        rw [by_name]
        simp [Item.Short, AllShort, EntriesShort, Bytes.ofText]
        decide
    · cases layout <;> decide
  obtain ⟨read, same⟩ := decode_encode distinct formed rfl plain
  obtain ⟨octets, encoded, decoded, _⟩ := read .positional (readable .positional)
  obtain ⟨others, encoded', _⟩ := read .named (readable .named)
  exact ⟨octets, others, encoded, encoded',
    same .named .positional (readable .named) (readable .positional) _ _ encoded' encoded, decoded⟩

end Schema

end CertifiedCalls
