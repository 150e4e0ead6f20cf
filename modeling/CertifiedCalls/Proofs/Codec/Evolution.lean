import CertifiedCalls.Proofs.Codec.RoundTrip

/-! # Messages between versions
Writer and reader need not know the same version of a schema. When one version grew out of the other,
a message of either is read under the other as the normal form of its value under the older version
(`decode_grown`): a newer reader takes an absent field for one that carries nothing, and an older
reader leaves behind what it does not know. -/

namespace CertifiedCalls.Schema

open MessagePack (Item)
open MessagePack.Item (AllShort EntriesShort)

/-! ### Schemas that describe everything -/

mutual

/-- A schema is **any-free** when it describes everything that it accepts. -/
def AnyFree : Schema → Prop
  | .any => False
  | .array element => element.AnyFree
  | .optional inner => inner.AnyFree
  | .record fields => FieldsAnyFree fields
  | .variant cases => CasesAnyFree cases
  | _ => True

/-- The schemas of fields describe everything. -/
def FieldsAnyFree : List (String × Schema) → Prop
  | [] => True
  | (_, schema) :: rest => schema.AnyFree ∧ FieldsAnyFree rest

/-- The schemas of payloads describe everything. -/
def CasesAnyFree : List (String × Option Schema) → Prop
  | [] => True
  | (_, none) :: rest => CasesAnyFree rest
  | (_, some schema) :: rest => schema.AnyFree ∧ CasesAnyFree rest

end

/-- What stands in fields is plain where their schemas take anything, given that each is. -/
theorem FieldsAnyFree.plainAt {fields : List (String × Schema)} (anyFree : FieldsAnyFree fields)
    (each : ∀ name schema, (name, schema) ∈ fields → schema.AnyFree → ∀ v, schema.PlainAt v)
    (present : Fields Value) : FieldsPlainAt fields present := by
  induction fields with
  | nil => trivial
  | cons first rest ih =>
    obtain ⟨here, later⟩ := anyFree
    exact ⟨fun v _ => each _ _ List.mem_cons_self here v,
      ih later fun name schema mem => each name schema (List.mem_cons_of_mem _ mem)⟩

/-- What stands in a payload is plain where its case takes anything, given that each is. -/
theorem CasesAnyFree.plainAt {cases : List (String × Option Schema)} (anyFree : CasesAnyFree cases)
    (each : ∀ tag schema, (tag, some schema) ∈ cases → schema.AnyFree → ∀ v, schema.PlainAt v)
    (tag : String) (payload : Value) : PayloadPlainAt cases tag payload := by
  induction cases with
  | nil => trivial
  | cons first rest ih =>
    obtain ⟨t, inner⟩ := first
    have each_later := fun tag schema mem => each tag schema (List.mem_cons_of_mem _ mem)
    cases inner with
    | none =>
      rw [PayloadPlainAt]
      split
      · trivial
      · exact ih anyFree each_later
    | some schema =>
      obtain ⟨here, later⟩ := anyFree
      rw [PayloadPlainAt]
      split
      · exact each _ _ List.mem_cons_self here payload
      · exact ih later each_later

/-- Every value is plain where a schema that describes everything takes anything. -/
theorem AnyFree.plainAt {schema : Schema} (anyFree : schema.AnyFree) (v : Value) :
    schema.PlainAt v := by
  induction schema generalizing v with
  | any => exact anyFree.elim
  | null | bool | nat | int | float | text | bytes => trivial
  | array element ih =>
    cases v with
    | array items => exact fun v _ => ih anyFree v
    | _ => trivial
  | optional inner ih => exact ih anyFree v
  | record fields ih =>
    cases v with
    | record present => exact FieldsAnyFree.plainAt anyFree ih present
    | _ => trivial
  | variant cases ih =>
    cases v with
    | variant tag payload =>
      cases payload with
      | none => trivial
      | some v => exact CasesAnyFree.plainAt anyFree ih tag v
    | _ => trivial

/-! ### Evolution -/

/-- **A schema may grow** while older and newer parties talk to each other: what either writes in any
layout, within what can be read back, the other reads as the normal form under the older version. -/
theorem decode_grown {older newer : Schema} (grows : GrowsTo older newer) (distinct : older.Distinct)
    (anyFree : older.AnyFree) (layout : Layout) {v : Value} (formed : v.WellFormed) :
    (older.check v = none → older.CanBeRead layout v → ∃ octets,
      older.encode layout v = .ok octets ∧ newer.decode octets = .ok (older.normal v)) ∧
    (newer.check v = none → newer.CanBeRead layout v → ∃ octets,
      newer.encode layout v = .ok octets ∧ older.decode octets = .ok (older.normal v)) := by
  obtain ⟨forth, back⟩ := grows.shares distinct
  have plain := anyFree.plainAt v
  exact ⟨fun accepted readable =>
      ⟨_, encode_of_accepted accepted layout, forth.decode_write formed plain accepted readable⟩,
    fun accepted readable =>
      ⟨_, encode_of_accepted accepted layout, back.decode_write formed plain accepted readable⟩⟩

/-- A record that grew at its end, in the elements of a sequence and in a payload, written by
position under each version and read under the other. -/
theorem decode_grown_nested :
    let older : Schema := .record [("rows", .array (.record [("k", .text)])),
      ("state", .variant [("off", none), ("on", some (.record [("x", .bool)]))])]
    let newer : Schema := .record [("rows", .array (.record [("k", .text), ("w", .optional .int)])),
      ("state", .variant [("off", none), ("on", some (.record [("x", .bool), ("y", .optional .text)]))]),
      ("id", .optional .bool)]
    let v : Value := .record [("id", .bool true),
      ("rows", .array [.record [("k", .text "a"), ("w", .int 5)]]),
      ("state", .variant "on" (some (.record [("x", .bool true), ("y", .text "b")])))]
    let shared : Value := .record [("rows", .array [.record [("k", .text "a")]]),
      ("state", .variant "on" (some (.record [("x", .bool true)])))]
    (∃ octets, older.encode .positional v = .ok octets ∧ newer.decode octets = .ok shared) ∧
      ∃ octets, newer.encode .positional v = .ok octets ∧ older.decode octets = .ok shared := by
  intro older newer v shared
  have grows : GrowsTo older newer := by
    refine .record (by decide) (.keep (.array ?_) (.keep (.variant ?_) (.append ?_)))
    · exact .record (by decide) (.keep (.refl _) (.append (by simp [isOptional])))
    · exact .unit (.payload (.record (by decide) (.keep (.refl _) (.append (by simp [isOptional]))))
        .nil)
    · simp [isOptional]
  have distinct : older.Distinct :=
    ⟨by decide, ⟨by decide, trivial, trivial⟩, ⟨⟨by decide, trivial, trivial⟩, trivial⟩, trivial⟩
  have anyFree : older.AnyFree :=
    ⟨⟨trivial, trivial⟩, ⟨⟨trivial, trivial⟩, trivial⟩, trivial⟩
  have formed : v.WellFormed := by
    refine ⟨?_, trivial, ⟨⟨?_, trivial, trivial, trivial⟩, trivial⟩,
      ⟨?_, trivial, trivial, trivial⟩, trivial⟩ <;> unfold Fields.Ordered <;> decide +kernel
  have by_older : older.toItem .positional v
      = .array [.array [.array [.text "a"]], .map [(.text "on", .array [.bool true])]] := rfl
  have by_newer : newer.toItem .positional v
      = .array [.array [.array [.text "a", .int 5]],
          .map [(.text "on", .array [.bool true, .text "b"])], .bool true] := rfl
  have readable_older : older.CanBeRead .positional v := by
    rw [CanBeRead, by_older]
    simp [Item.Short, AllShort, EntriesShort, Bytes.ofText, Item.depth]
    decide
  have readable_newer : newer.CanBeRead .positional v := by
    rw [CanBeRead, by_newer]
    simp [Item.Short, AllShort, EntriesShort, Bytes.ofText, Item.depth]
    decide
  obtain ⟨forth, back⟩ := decode_grown grows distinct anyFree .positional formed
  exact ⟨forth rfl readable_older, back rfl readable_newer⟩

end CertifiedCalls.Schema
