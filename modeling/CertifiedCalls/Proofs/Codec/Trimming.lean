import CertifiedCalls.Proofs.Codec.Places

/-! # Trimming
Conforming a value twice comes to the same as conforming it once (`conform_conform`). A value that the
schema accepts already is **trimmed** and nothing else: its records lose the fields that the schema
does not name and the nulls of optional fields, and what is left is accepted (`conform_settles`).
Payloads of tagged values are left alone. -/

namespace CertifiedCalls.Schema

/-! ### Conforming twice -/

/-- A text stands for a number or for itself. -/
theorem natOfText_cases (s : String) :
    (∃ n, natOfText s = .nat n) ∨ natOfText s = .text s := by
  rw [natOfText]
  split
  · split
    · exact .inl ⟨_, rfl⟩
    · exact .inr rfl
  · exact .inr rfl

/-- A sequence stands for octets or for itself. -/
theorem bytesOfItems_cases (items : List Value) :
    (∃ octets, bytesOfItems items = .bytes octets) ∨ bytesOfItems items = .array items := by
  rw [bytesOfItems]
  split
  · exact .inl ⟨_, rfl⟩
  · exact .inr rfl

/-- A single entry stands for a tagged value. -/
theorem exists_caseOf (cases : List (String × Option Schema)) (tag : String) (payload : Value) :
    ∃ payload', caseOf cases tag payload = .variant tag payload' := by
  rw [caseOf_eq]
  split <;> exact ⟨_, rfl⟩

section Record

variable {fields : List (String × Schema)}

/-- A field of a record has been **conformed** when the schema names it, its value comes of conforming
one, and it is not a null that may be left out. -/
def FieldConformed (fields : List (String × Schema)) (field : String × Value) : Prop :=
  ∃ schema v, (field.1, schema) ∈ fields ∧ (v.isNull && schema.isOptional) = false ∧
    field.2 = conform schema v

/-- Items in order become conformed fields. -/
theorem fieldConformed_of_mem_fieldsOfItems {items : List Value} {field : String × Value}
    (mem : field ∈ fieldsOfItems fields items) : FieldConformed fields field := by
  induction fields generalizing items with
  | nil =>
    rw [fieldsOfItems_of_no_fields] at mem
    exact absurd mem List.not_mem_nil
  | cons first rest ih =>
    obtain ⟨name, schema⟩ := first
    -- A field that comes of the later ones is named among them.
    have later {items : List Value} (mem : field ∈ fieldsOfItems rest items) :
        FieldConformed ((name, schema) :: rest) field := by
      obtain ⟨s, v, named, kept, e⟩ := ih mem
      exact ⟨s, v, List.mem_cons_of_mem _ named, kept, e⟩
    cases items with
    | nil => exact absurd mem List.not_mem_nil
    | cons v items =>
      rw [fieldsOfItems] at mem
      split at mem
      · exact later mem
      · rename_i kept
        rcases List.mem_cons.mp mem with rfl | mem
        · exact ⟨schema, v, List.mem_cons_self, Bool.not_eq_true _ ▸ kept, rfl⟩
        · exact later mem

/-- Fields that are read by name become conformed fields. -/
theorem fieldConformed_of_mem_fieldsOfRecord (distinct : (Fields.names fields).Nodup)
    {raw : Fields Value} {field : String × Value} (mem : field ∈ fieldsOfRecord fields raw) :
    FieldConformed fields field := by
  rw [fieldsOfRecord_eq distinct, carriedFields] at mem
  obtain ⟨⟨name, schema⟩, named, carries⟩ := List.mem_filterMap.mp mem
  obtain ⟨w, changed, rfl⟩ := Option.map_eq_some_iff.mp carries
  obtain ⟨v, left, rfl⟩ := Option.map_eq_some_iff.mp changed
  have kept : (!(v.isNull && schema.isOptional)) = true := (Option.filter_eq_some_iff.mp left).2
  exact ⟨schema, v, named, (Bool.not_eq_true' _).mp kept, rfl⟩

/-- A record of conformed fields is conformed to itself, given that conforming twice changes nothing
in its fields. -/
theorem conform_record_of_conformed (distinct : (Fields.names fields).Nodup)
    (twice : ∀ name schema, (name, schema) ∈ fields →
      ∀ v, conform schema (conform schema v) = conform schema v)
    {present : Fields Value} (ordered : Fields.Ordered present)
    (conformed : ∀ field ∈ present, FieldConformed fields field) :
    conform (.record fields) (.record present) = .record present := by
  rw [conform, fieldsOfRecord_eq distinct]
  refine congrArg Value.record ((Fields.ordered_ofList _).ext ordered fun name => ?_)
  rw [Fields.get?_ofList (nodup_names_carriedFields distinct present), get?_carriedFields _ distinct]
  cases found : Fields.get? name present with
  | none => cases Fields.get? name fields <;> rfl
  | some w =>
    obtain ⟨schema, v, named, kept, e⟩ := conformed _ (Fields.mem_of_get?_eq_some found)
    obtain rfl : w = conform schema v := e
    have still : ((conform schema v).isNull && schema.isOptional) = false := by
      rw [isNull_conform]
      exact kept
    rw [Fields.get?_eq_some_of_mem distinct named, Option.bind_some, carried_of_kept still,
      Option.map_some, twice name schema named]

end Record

/-- **Conforming twice** is conforming once. -/
theorem conform_conform {schema : Schema} (distinct : schema.Distinct) (v : Value) :
    conform schema (conform schema v) = conform schema v := by
  induction schema generalizing v with
  | any | null | bool | text => cases v <;> rfl
  | nat width =>
    cases v with
    | text s =>
      rw [conform]
      rcases natOfText_cases s with ⟨n, number⟩ | text
      · rw [number]
        rfl
      · rw [text, conform, text]
    | _ => rfl
  | int =>
    cases v with
    | nat n =>
      rw [conform]
      split
      · rfl
      · rename_i large
        rw [conform, if_neg large]
    | _ => rfl
  | float => cases v <;> rfl
  | bytes length =>
    cases v with
    | array items =>
      rw [conform]
      rcases bytesOfItems_cases items with ⟨octets, bytes⟩ | array
      · rw [bytes]
        rfl
      · rw [array, conform, array]
    | _ => rfl
  | array element ih =>
    cases v with
    | array items =>
      rw [conform, conform, List.map_map]
      exact congrArg Value.array (List.map_congr_left fun v _ => ih distinct v)
    | _ => rfl
  | optional inner ih =>
    have here : conform (.optional inner) v = if v.isNull then .null else conform inner v := by
      rw [conform]
    cases null : v.isNull with
    | true =>
      rw [here, null]
      rfl
    | false =>
      rw [here, null, if_neg Bool.false_ne_true, conform, isNull_conform, null,
        if_neg Bool.false_ne_true]
      exact ih distinct v
  | record fields ih =>
    obtain ⟨names_distinct, fields_distinct⟩ := distinct
    have twice (name : String) (schema : Schema) (named : (name, schema) ∈ fields) :=
      ih name schema named (fields_distinct.of_mem named)
    cases v with
    | array items =>
      rw [conform]
      exact conform_record_of_conformed names_distinct twice (Fields.ordered_ofList _)
        fun field mem => fieldConformed_of_mem_fieldsOfItems (Fields.mem_of_mem_ofList mem)
    | record raw =>
      rw [conform]
      exact conform_record_of_conformed names_distinct twice (Fields.ordered_ofList _)
        fun field mem =>
          fieldConformed_of_mem_fieldsOfRecord names_distinct (Fields.mem_of_mem_ofList mem)
    | _ => rfl
  | variant cases ih =>
    cases v with
    | record raw =>
      rcases raw with _ | ⟨⟨tag, payload⟩, _ | ⟨second, others⟩⟩
      · rfl
      · obtain ⟨payload', tagged⟩ := exists_caseOf cases tag payload
        rw [conform, tagged]
        rfl
      · rfl
    | _ => rfl

/-! ### Accepted values -/

/-- **What is accepted stays accepted** when it is conformed. -/
theorem check_conform {schema : Schema} (distinct : schema.Distinct) {v : Value}
    (accepted : check schema v = none) : check schema (conform schema v) = none := by
  induction schema generalizing v with
  | any => exact accepted
  | null | bool | nat | int | float | text =>
    cases v <;> first | exact accepted | simp [check] at accepted
  | bytes length =>
    cases v with
    | bytes octets => exact accepted
    | _ => cases length <;> simp [check] at accepted
  | array element ih =>
    cases v with
    | array items =>
      rw [check_array_eq_none_iff] at accepted
      rw [conform, check_array_eq_none_iff]
      intro w mem
      obtain ⟨v, here, rfl⟩ := List.mem_map.mp mem
      exact ih distinct (accepted v here)
    | _ => simp [check] at accepted
  | optional inner ih =>
    rw [check_optional_eq_none_iff] at accepted
    rw [conform]
    cases null : v.isNull with
    | true => rfl
    | false =>
      rw [null] at accepted
      rw [if_neg Bool.false_ne_true, check_optional_eq_none_iff]
      exact .inr (ih distinct (accepted.resolve_left Bool.false_ne_true))
  | record fields ih =>
    obtain ⟨names_distinct, fields_distinct⟩ := distinct
    cases v with
    | record present =>
      rw [check_record_eq_none_iff] at accepted
      rw [conform, check_record_eq_none_iff]
      intro name schema named
      -- What the conformed record says of a field is what the record carries in it, conformed.
      rw [fieldsOfRecord_eq names_distinct,
        Fields.get?_ofList (nodup_names_carriedFields names_distinct present),
        get?_carriedFields _ names_distinct, Fields.get?_eq_some_of_mem names_distinct named,
        Option.bind_some]
      have fine := (accepted name schema named).carried
      cases left : schema.carried (Fields.get? name present) with
      | none =>
        rw [left] at fine
        exact fine
      | some v =>
        rw [left] at fine
        exact ih name schema named (fields_distinct.of_mem named) fine
    | _ => simp [check] at accepted
  | variant cases ih =>
    cases v with
    | variant tag payload => exact accepted
    | _ => simp [check] at accepted

/-! ### Trimmed values -/

mutual

/-- A value is **trimmed** under a schema when nothing but fields of its records is taken out. -/
inductive Trims : Schema → Value → Value → Prop
  /-- A scalar stays as it is. -/
  | scalar {schema : Schema} (scalar : schema.isScalar = true) (v : Value) : Trims schema v v
  /-- So does a tagged value. -/
  | variant (cases : List (String × Option Schema)) (v : Value) : Trims (.variant cases) v v
  /-- Nothing stays nothing. -/
  | absent (inner : Schema) : Trims (.optional inner) .null .null
  /-- What is not missing is trimmed. -/
  | present {inner : Schema} {v w : Value} (here : Trims inner v w) : Trims (.optional inner) v w
  /-- The elements of a sequence are trimmed. -/
  | array {element : Schema} {items items' : List Value} (each : ItemsTrim element items items') :
    Trims (.array element) (.array items) (.array items')
  /-- The fields of a record are trimmed. -/
  | record {fields : List (String × Schema)} {present present' : Fields Value}
    (trim : FieldsTrim fields present present') :
    Trims (.record fields) (.record present) (.record present')

/-- The elements of a sequence are **trimmed** one by one: none is taken out. -/
inductive ItemsTrim : Schema → List Value → List Value → Prop
  /-- There are no elements. -/
  | nil {element : Schema} : ItemsTrim element [] []
  /-- The first one is trimmed, and so are the later ones. -/
  | cons {element : Schema} {v w : Value} {rest rest' : List Value} (here : Trims element v w)
    (later : ItemsTrim element rest rest') : ItemsTrim element (v :: rest) (w :: rest')

/-- The fields of a record are **trimmed** when those that the schema does not name and the nulls of
optional ones are taken out, and the values of the others are trimmed. -/
inductive FieldsTrim : List (String × Schema) → Fields Value → Fields Value → Prop
  /-- There are no fields. -/
  | nil {fields : List (String × Schema)} : FieldsTrim fields [] []
  /-- A field that the schema does not name is taken out. -/
  | unnamed {fields : List (String × Schema)} {name : String} {v : Value}
    {rest rest' : Fields Value} (unnamed : name ∉ Fields.names fields)
    (later : FieldsTrim fields rest rest') : FieldsTrim fields ((name, v) :: rest) rest'
  /-- A null of an optional field is taken out. -/
  | null {fields : List (String × Schema)} {name : String} {inner : Schema}
    {rest rest' : Fields Value} (named : (name, .optional inner) ∈ fields)
    (later : FieldsTrim fields rest rest') : FieldsTrim fields ((name, .null) :: rest) rest'
  /-- Any other field is kept. -/
  | kept {fields : List (String × Schema)} {name : String} {schema : Schema} {v w : Value}
    {rest rest' : Fields Value} (named : (name, schema) ∈ fields)
    (kept : (v.isNull && schema.isOptional) = false) (here : Trims schema v w)
    (later : FieldsTrim fields rest rest') :
    FieldsTrim fields ((name, v) :: rest) ((name, w) :: rest')

end

/-- Elements are trimmed by a function that trims each of them. -/
theorem itemsTrim_map {element : Schema} {change : Value → Value} {items : List Value}
    (each : ∀ v ∈ items, Trims element v (change v)) :
    ItemsTrim element items (items.map change) := by
  induction items with
  | nil => exact .nil
  | cons v rest ih =>
    exact .cons (each v List.mem_cons_self) (ih fun w mem => each w (List.mem_cons_of_mem v mem))

/-- What a record carries is the record trimmed, when the change trims the values of its fields. -/
theorem fieldsTrim_carried {fields : List (String × Schema)} {present : Fields Value}
    {change : Schema → Value → Value}
    (each : ∀ field ∈ present, ∀ schema, (field.1, schema) ∈ fields →
      Trims schema field.2 (change schema field.2)) :
    FieldsTrim fields present (present.filterMap fun field =>
      (carriedField change fields field.1 field.2).map (field.1, ·)) := by
  induction present with
  | nil => exact .nil
  | cons first rest ih =>
    obtain ⟨name, v⟩ := first
    have later := ih fun field mem => each field (List.mem_cons_of_mem _ mem)
    rw [List.filterMap_cons, carriedField]
    cases found : Fields.get? name fields with
    | none => exact .unnamed (Fields.not_mem_names_of_get?_eq_none found) later
    | some schema =>
      have named := Fields.mem_of_get?_eq_some found
      rw [Option.bind_some]
      cases dropped : v.isNull && schema.isOptional with
      | true =>
        rw [carried_of_null dropped]
        cases v <;> cases schema <;> first | exact .null named later | cases dropped
      | false =>
        rw [carried_of_kept dropped]
        exact .kept named dropped (each _ List.mem_cons_self schema named) later

/-- **What is accepted is trimmed** when it is conformed. -/
theorem trims_conform {schema : Schema} (distinct : schema.Distinct) {v : Value}
    (formed : v.WellFormed) (accepted : check schema v = none) :
    Trims schema v (conform schema v) := by
  induction schema generalizing v with
  | any => cases v <;> exact .scalar rfl _
  | null | bool | nat | int | float | text =>
    cases v <;> first | exact .scalar rfl _ | simp [check] at accepted
  | bytes length =>
    cases v with
    | bytes octets => exact .scalar rfl _
    | _ => cases length <;> simp [check] at accepted
  | array element ih =>
    cases v with
    | array items =>
      rw [check_array_eq_none_iff] at accepted
      rw [conform]
      exact .array (itemsTrim_map fun v mem =>
        ih distinct (Value.wellFormed_of_mem_items formed mem) (accepted v mem))
    | _ => simp [check] at accepted
  | optional inner ih =>
    rw [check_optional_eq_none_iff] at accepted
    rw [conform]
    cases null : v.isNull with
    | true =>
      cases v with
      | null => exact .absent inner
      | _ => cases null
    | false =>
      rw [null] at accepted
      exact .present (ih distinct formed (accepted.resolve_left Bool.false_ne_true))
  | record fields ih =>
    obtain ⟨names_distinct, fields_distinct⟩ := distinct
    cases v with
    | record present =>
      obtain ⟨ordered, all_formed⟩ := formed
      rw [check_record_eq_none_iff] at accepted
      rw [conform, fieldsOfRecord_eq names_distinct, ofList_carriedFields conform names_distinct ordered]
      refine .record (fieldsTrim_carried fun field mem schema named => ?_)
      have fine := accepted field.1 schema named
      rw [Fields.get?_eq_some_of_mem ordered.nodup_names mem] at fine
      exact ih field.1 schema named (fields_distinct.of_mem named)
        (Value.wellFormed_of_mem_fields all_formed mem) fine
    | _ => simp [check] at accepted
  | variant cases ih =>
    cases v with
    | variant tag payload => exact .variant cases _
    | _ => simp [check] at accepted

/-- **Conforming settles a value**: doing so again changes nothing. What the schema accepts it accepts
afterwards, and nothing is taken out of it but fields that the schema does not name and nulls of
optional fields. -/
theorem conform_settles {schema : Schema} (distinct : schema.Distinct) (v : Value) :
    conform schema (conform schema v) = conform schema v ∧
    (check schema v = none → check schema (conform schema v) = none) ∧
    (check schema v = none → v.WellFormed → Trims schema v (conform schema v)) := by
  refine ⟨conform_conform distinct v, check_conform distinct, ?_⟩
  intro accepted formed
  exact trims_conform distinct formed accepted

/-- A record in a list, with a field that its schema does not name beside a tagged value and a null that
may be left out: the list and the tagged value stay as they are. -/
theorem conform_settles_rows :
    let schema : Schema := .array (.record [("note", .optional .text),
      ("kind", .variant [("some", some (.record [("n", .optional .int)]))])])
    let kind : Value := .variant "some" (some (.record [("m", .nat 1), ("n", .null)]))
    let v : Value := .array [.record [("extra", .bool true), ("kind", kind), ("note", .null)]]
    let w : Value := .array [.record [("kind", kind)]]
    schema.check v = none ∧ conform schema v = w ∧ conform schema w = w ∧ schema.check w = none ∧
      Trims schema v w := by
  intro schema kind v w
  have distinct : schema.Distinct :=
    ⟨by decide, trivial, ⟨⟨by decide, trivial, trivial⟩, trivial⟩, trivial⟩
  have formed : v.WellFormed := by
    have three : Fields.Ordered [("extra", .bool true), ("kind", kind), ("note", .null)] := by
      unfold Fields.Ordered
      decide +kernel
    have two : Fields.Ordered [("m", Value.nat 1), ("n", .null)] := by
      unfold Fields.Ordered
      decide +kernel
    have one : 1 < Value.natBound := by decide
    exact ⟨⟨three, trivial, ⟨two, one, trivial, trivial⟩, trivial, trivial⟩, trivial⟩
  have accepted : schema.check v = none := rfl
  have conformed : conform schema v = w := rfl
  obtain ⟨twice, fine, trims⟩ := conform_settles distinct v
  rw [conformed] at twice fine trims
  exact ⟨accepted, conformed, twice, fine accepted, trims accepted formed⟩


end CertifiedCalls.Schema
