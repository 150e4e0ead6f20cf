import CertifiedCalls.Schema.Check
import CertifiedCalls.Proofs.Codec.Induction
import CertifiedCalls.Proofs.NamedFields

/-! # What schemas accept
The check finds no mismatch in a sequence, a record or a tagged value exactly when it finds none in
the parts that the schema names. -/

namespace CertifiedCalls

namespace Value

/-- The elements of a well-formed sequence are well formed. -/
theorem wellFormed_of_mem_items {items : List Value} {v : Value} (h : AllWellFormed items)
    (mem : v ∈ items) : v.WellFormed := by
  induction items with
  | nil => exact absurd mem List.not_mem_nil
  | cons first rest ih =>
    obtain ⟨here, later⟩ := h
    rcases List.mem_cons.mp mem with rfl | mem
    · exact here
    · exact ih later mem

/-- The fields of a well-formed record are well formed. -/
theorem wellFormed_of_mem_fields {fields : List (String × Value)} {name : String} {v : Value}
    (h : FieldsWellFormed fields) (mem : (name, v) ∈ fields) : v.WellFormed := by
  induction fields with
  | nil => exact absurd mem List.not_mem_nil
  | cons first rest ih =>
    obtain ⟨here, later⟩ := h
    rcases List.mem_cons.mp mem with rfl | mem
    · exact here
    · exact ih later mem

end Value

namespace Schema

/-! ### Distinct field names -/

mutual

/-- The field names of every record of a schema are **distinct**. -/
def Distinct : Schema → Prop
  | .array element => element.Distinct
  | .optional inner => inner.Distinct
  | .record fields => (Fields.names fields).Nodup ∧ FieldsDistinct fields
  | .variant cases => CasesDistinct cases
  | _ => True

/-- The schemas of fields have distinct field names. -/
def FieldsDistinct : List (String × Schema) → Prop
  | [] => True
  | (_, schema) :: rest => schema.Distinct ∧ FieldsDistinct rest

/-- The schemas of payloads have distinct field names. -/
def CasesDistinct : List (String × Option Schema) → Prop
  | [] => True
  | (_, none) :: rest => CasesDistinct rest
  | (_, some schema) :: rest => schema.Distinct ∧ CasesDistinct rest

end

/-- A field's schema has distinct field names when all do. -/
theorem FieldsDistinct.of_mem {fields : List (String × Schema)} {name : String} {schema : Schema}
    (h : FieldsDistinct fields) (mem : (name, schema) ∈ fields) : schema.Distinct := by
  induction fields with
  | nil => exact absurd mem List.not_mem_nil
  | cons first rest ih =>
    obtain ⟨here, later⟩ := h
    rcases List.mem_cons.mp mem with rfl | mem
    · exact here
    · exact ih later mem

/-- A payload's schema has distinct field names when all do. -/
theorem CasesDistinct.of_mem {cases : List (String × Option Schema)} {tag : String}
    {schema : Schema} (h : CasesDistinct cases) (mem : (tag, some schema) ∈ cases) :
    schema.Distinct := by
  induction cases with
  | nil => exact absurd mem List.not_mem_nil
  | cons first rest ih =>
    obtain ⟨t, payload⟩ := first
    cases payload with
    | none =>
      rcases List.mem_cons.mp mem with e | mem
      · exact absurd (Prod.mk.inj e).2 (by simp)
      · exact ih h mem
    | some s =>
      obtain ⟨here, later⟩ := h
      rcases List.mem_cons.mp mem with e | mem
      · obtain rfl := Option.some.inj (Prod.mk.inj e).2
        exact here
      · exact ih later mem

/-! ### Cases -/

/-- The case that is found is one of the cases. -/
theorem mem_of_findCase {cases : List (String × Option Schema)} {tag : String}
    {payload : Option Schema} (h : findCase tag cases = some payload) : (tag, payload) ∈ cases := by
  induction cases with
  | nil => simp [findCase] at h
  | cons first rest ih =>
    obtain ⟨t, p⟩ := first
    rw [findCase] at h
    split at h
    · rename_i e
      rw [e, Option.some.inj h]
      exact List.mem_cons_self
    · exact List.mem_cons_of_mem _ (ih h)

/-- What a case says of a payload. -/
def verdict (tag : String) (inner : Option Schema) (payload : Option Value) : Option Mismatch :=
  match inner, payload with
  | none, none => none
  | some schema, some v => (check schema v).map (·.under (.case tag))
  | some schema, none => some ⟨[.case tag], .shape schema, .absent⟩
  | none, some v => some ⟨[.case tag], .noPayload, .value v⟩

theorem checkCases_cons (t tag : String) (inner : Option Schema)
    (rest : List (String × Option Schema)) (payload : Option Value) :
    checkCases ((t, inner) :: rest) tag payload
      = if t = tag then some (verdict tag inner payload) else checkCases rest tag payload := by
  cases inner <;> cases payload <;> rfl

/-- The first case of a tag says whether a payload is accepted. -/
theorem checkCases_eq (cases : List (String × Option Schema)) (tag : String)
    (payload : Option Value) :
    checkCases cases tag payload
      = (findCase tag cases).map fun inner => verdict tag inner payload := by
  induction cases with
  | nil => rfl
  | cons first rest ih =>
    obtain ⟨t, inner⟩ := first
    rw [checkCases_cons, findCase, ih]
    split <;> rfl

/-! ### Acceptance -/

/-- There is no fault in a sequence when there is none in its elements. -/
theorem firstFault_eq_none_iff {fault : Value → Option Mismatch} {items : List Value} {i : Nat} :
    firstFault fault i items = none ↔ ∀ v ∈ items, fault v = none := by
  induction items generalizing i with
  | nil => simp [firstFault]
  | cons v rest ih =>
    rw [firstFault, List.forall_mem_cons]
    cases hv : fault v with
    | some m => simp
    | none => simp [ih]

theorem check_array_eq_none_iff {element : Schema} {items : List Value} :
    check (.array element) (.array items) = none ↔ ∀ v ∈ items, check element v = none := by
  rw [check, firstFault_eq_none_iff]

/-- A field of a record is as its schema wants it. -/
def FieldAccepted (schema : Schema) : Option Value → Prop
  | some v => check schema v = none
  | none => schema.isOptional = true

theorem checkFields_eq_none_iff {fields : List (String × Schema)} {present : Fields Value} :
    checkFields fields present = none ↔ ∀ name schema, (name, schema) ∈ fields →
      FieldAccepted schema (Fields.get? name present) := by
  induction fields with
  | nil => simp [checkFields]
  | cons first rest ih =>
    obtain ⟨name, schema⟩ := first
    -- What is wanted of all fields is wanted of the first and of the others.
    have all_iff : (∀ n s, (n, s) ∈ (name, schema) :: rest →
        FieldAccepted s (Fields.get? n present)) ↔
        FieldAccepted schema (Fields.get? name present) ∧ checkFields rest present = none := by
      rw [ih]
      constructor
      · intro h
        exact ⟨h name schema List.mem_cons_self,
          fun n s mem => h n s (List.mem_cons_of_mem _ mem)⟩
      · rintro ⟨here, later⟩ n s mem
        rcases List.mem_cons.mp mem with e | mem
        · obtain ⟨rfl, rfl⟩ := Prod.mk.inj e
          exact here
        · exact later n s mem
    rw [all_iff, checkFields]
    cases found : Fields.get? name present with
    | some v =>
      cases fault : check schema v with
      | some m => simp [FieldAccepted, fault]
      | none => simp [FieldAccepted, fault]
    | none =>
      cases opt : schema.isOptional with
      | true => simp [FieldAccepted, opt]
      | false => simp [FieldAccepted, opt]

theorem check_record_eq_none_iff {fields : List (String × Schema)} {present : Fields Value} :
    check (.record fields) (.record present) = none ↔ ∀ name schema, (name, schema) ∈ fields →
      FieldAccepted schema (Fields.get? name present) := by
  rw [check, checkFields_eq_none_iff]

/-- A payload is as its case wants it. -/
def PayloadAccepted : Option Schema → Option Value → Prop
  | none, none => True
  | some schema, some v => check schema v = none
  | _, _ => False

theorem check_variant_eq_none_iff {cases : List (String × Option Schema)} {tag : String}
    {payload : Option Value} :
    check (.variant cases) (.variant tag payload) = none ↔
      ∃ inner, findCase tag cases = some inner ∧ PayloadAccepted inner payload := by
  rw [check, checkCases_eq]
  cases findCase tag cases with
  | none => simp
  | some inner => cases inner <;> cases payload <;> simp [verdict, PayloadAccepted]

/-- An accepted value of an optional schema is nothing or accepted by the inner schema. -/
theorem check_optional_eq_none_iff {inner : Schema} {v : Value} :
    check (.optional inner) v = none ↔ v.isNull = true ∨ check inner v = none := by
  rw [check]
  cases v.isNull <;> simp

end Schema

end CertifiedCalls
