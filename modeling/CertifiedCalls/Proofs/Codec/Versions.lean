import CertifiedCalls.Proofs.Codec.Normal

/-! # Versions of a schema
A schema **grows** when optional fields with fresh names are appended to some of its records, at any
depth. Whoever writes and whoever reads a message may then know different versions: they **share** a
schema when each of their records continues the record of the shared one, and at most one of the two
continues it any further. A value that the writer's version accepts is accepted by the shared one
(`Shares.check_eq_none`), and its normal form by the reader's (`Shares.check_normal`). -/

namespace CertifiedCalls.Schema

/-! ### Growing -/

section Growing

variable (grows : Schema → Schema → Prop)

/-- The fields of a record **grow**. -/
inductive FieldsGrow : List (String × Schema) → List (String × Schema) → Prop
  /-- Optional fields are appended. -/
  | append {more : List (String × Schema)} (optional : ∀ field ∈ more, field.2.isOptional = true) :
    FieldsGrow [] more
  /-- A field keeps its name and its place. -/
  | keep {name : String} {older newer : Schema} {rest rest' : List (String × Schema)}
    (here : grows older newer) (later : FieldsGrow rest rest') :
    FieldsGrow ((name, older) :: rest) ((name, newer) :: rest')

/-- The payloads of cases **grow**. -/
inductive CasesGrow : List (String × Option Schema) → List (String × Option Schema) → Prop
  /-- There are no cases. -/
  | nil : CasesGrow [] []
  /-- A tag stays without a payload. -/
  | unit {tag : String} {rest rest' : List (String × Option Schema)} (later : CasesGrow rest rest') :
    CasesGrow ((tag, none) :: rest) ((tag, none) :: rest')
  /-- A tag keeps its payload. -/
  | payload {tag : String} {older newer : Schema} {rest rest' : List (String × Option Schema)}
    (here : grows older newer) (later : CasesGrow rest rest') :
    CasesGrow ((tag, some older) :: rest) ((tag, some newer) :: rest')

end Growing

/-- A schema **grows** into another by optional fields with fresh names at the end of its records. -/
inductive GrowsTo : Schema → Schema → Prop
  /-- It may stay as it is. -/
  | refl (schema : Schema) : GrowsTo schema schema
  /-- In the elements of a sequence. -/
  | array {older newer : Schema} (element : GrowsTo older newer) :
    GrowsTo (.array older) (.array newer)
  /-- In what may be missing. -/
  | optional {older newer : Schema} (inner : GrowsTo older newer) :
    GrowsTo (.optional older) (.optional newer)
  /-- In a record, or in its fields. -/
  | record {fields fields' : List (String × Schema)} (fresh : (Fields.names fields').Nodup)
    (grow : FieldsGrow GrowsTo fields fields') : GrowsTo (.record fields) (.record fields')
  /-- In payloads. -/
  | variant {cases cases' : List (String × Option Schema)} (grow : CasesGrow GrowsTo cases cases') :
    GrowsTo (.variant cases) (.variant cases')

/-! ### Sharing -/

section Sharing

variable (shares : Schema → Schema → Schema → Prop)

/-- The fields of the writer's and the reader's version of a record **share** fields. -/
inductive FieldsShare :
    List (String × Schema) → List (String × Schema) → List (String × Schema) → Prop
  /-- The writer knows further fields. -/
  | written (more : List (String × Schema)) : FieldsShare [] more []
  /-- The reader knows further fields, which are optional. -/
  | read {more : List (String × Schema)} (optional : ∀ field ∈ more, field.2.isOptional = true) :
    FieldsShare [] [] more
  /-- Both know a field of the name, at the same place. -/
  | both {name : String} {shared written read : Schema} {fields fields' fields'' : List (String × Schema)}
    (here : shares shared written read) (later : FieldsShare fields fields' fields'') :
    FieldsShare ((name, shared) :: fields) ((name, written) :: fields') ((name, read) :: fields'')

/-- The cases of the writer's and the reader's version of a tagged value **share** cases. -/
inductive CasesShare : List (String × Option Schema) → List (String × Option Schema) →
    List (String × Option Schema) → Prop
  /-- There are no cases. -/
  | nil : CasesShare [] [] []
  /-- Both know a tag without a payload. -/
  | unit {tag : String} {cases cases' cases'' : List (String × Option Schema)}
    (later : CasesShare cases cases' cases'') :
    CasesShare ((tag, none) :: cases) ((tag, none) :: cases') ((tag, none) :: cases'')
  /-- Both know a payload of a tag. -/
  | payload {tag : String} {shared written read : Schema}
    {cases cases' cases'' : List (String × Option Schema)} (here : shares shared written read)
    (later : CasesShare cases cases' cases'') :
    CasesShare ((tag, some shared) :: cases) ((tag, some written) :: cases')
      ((tag, some read) :: cases'')

end Sharing

/-- Whether a schema has no schemas inside it. -/
def isScalar : Schema → Bool
  | .array _ | .optional _ | .record _ | .variant _ => false
  | _ => true

/-- The writer's and the reader's version **share** a schema. -/
inductive Shares : Schema → Schema → Schema → Prop
  /-- They have a scalar in common. -/
  | scalar {schema : Schema} (scalar : schema.isScalar = true) : Shares schema schema schema
  /-- They share elements. -/
  | array {shared written read : Schema} (element : Shares shared written read) :
    Shares (.array shared) (.array written) (.array read)
  /-- They share what may be missing. -/
  | optional {shared written read : Schema} (inner : Shares shared written read) :
    Shares (.optional shared) (.optional written) (.optional read)
  /-- They share fields, and neither repeats a name. -/
  | record {fields fields' fields'' : List (String × Schema)} (written : (Fields.names fields').Nodup)
    (read : (Fields.names fields'').Nodup) (share : FieldsShare Shares fields fields' fields'') :
    Shares (.record fields) (.record fields') (.record fields'')
  /-- They share payloads. -/
  | variant {cases cases' cases'' : List (String × Option Schema)}
    (share : CasesShare Shares cases cases' cases'') :
    Shares (.variant cases) (.variant cases') (.variant cases'')

/-! ### What is shared -/

section Fields

variable {shares : Schema → Schema → Schema → Prop} {fields fields' fields'' : List (String × Schema)}
  {name : String}

/-- Fields are shared with themselves when their schemas are. -/
theorem FieldsShare.refl (each : ∀ name schema, (name, schema) ∈ fields → shares schema schema schema) :
    FieldsShare shares fields fields fields := by
  induction fields with
  | nil => exact .written []
  | cons first rest ih =>
    exact .both (each _ _ List.mem_cons_self)
      (ih fun name schema mem => each name schema (List.mem_cons_of_mem _ mem))

/-- The reader knows all shared names. -/
theorem FieldsShare.names_sublist (share : FieldsShare shares fields fields' fields'') :
    (Fields.names fields).Sublist (Fields.names fields'') := by
  induction share with
  | written => exact List.Sublist.slnil
  | read => exact List.nil_sublist _
  | both _ _ ih => exact ih.cons_cons _

/-- Writer and reader know every shared field. -/
theorem FieldsShare.of_mem (share : FieldsShare shares fields fields' fields'') {shared : Schema}
    (mem : (name, shared) ∈ fields) :
    ∃ written read, (name, written) ∈ fields' ∧ (name, read) ∈ fields'' ∧
      shares shared written read := by
  induction share with
  | written => exact absurd mem List.not_mem_nil
  | read => exact absurd mem List.not_mem_nil
  | @both _ _ written read _ _ _ here _ ih =>
    rcases List.mem_cons.mp mem with e | later
    · obtain ⟨rfl, rfl⟩ := Prod.mk.inj e
      exact ⟨written, read, List.mem_cons_self, List.mem_cons_self, here⟩
    · obtain ⟨written, read, mem', mem'', both⟩ := ih later
      exact ⟨written, read, List.mem_cons_of_mem _ mem', List.mem_cons_of_mem _ mem'', both⟩

/-- What the reader knows is shared, or optional and only the reader's. -/
theorem FieldsShare.of_mem_read (share : FieldsShare shares fields fields' fields'')
    (distinct : (Fields.names fields'').Nodup) {read : Schema} (mem : (name, read) ∈ fields'') :
    (∃ shared written, (name, shared) ∈ fields ∧ (name, written) ∈ fields' ∧
        shares shared written read) ∨
      (read.isOptional = true ∧ name ∉ Fields.names fields ∧ name ∉ Fields.names fields') := by
  induction share with
  | written => exact absurd mem List.not_mem_nil
  | read optional => exact .inr ⟨optional _ mem, List.not_mem_nil, List.not_mem_nil⟩
  | @both known shared written _ _ _ _ here _ ih =>
    rw [Fields.names_cons, List.nodup_cons] at distinct
    rcases List.mem_cons.mp mem with e | later
    · obtain ⟨rfl, rfl⟩ := Prod.mk.inj e
      exact .inl ⟨shared, written, List.mem_cons_self, List.mem_cons_self, here⟩
    · rcases ih distinct.2 later with ⟨shared, written, mem, mem', both⟩ | ⟨optional, missing, missing'⟩
      · exact .inl ⟨shared, written, List.mem_cons_of_mem _ mem, List.mem_cons_of_mem _ mem', both⟩
      · have other : name ≠ known := by
          rintro rfl
          exact distinct.1 (List.mem_map_of_mem later)
        exact .inr ⟨optional, List.not_mem_cons_of_ne_of_not_mem other missing,
          List.not_mem_cons_of_ne_of_not_mem other missing'⟩

end Fields

section Cases

variable {shares : Schema → Schema → Schema → Prop}
  {cases cases' cases'' : List (String × Option Schema)} {tag : String}

/-- Cases are shared with themselves when their payloads are. -/
theorem CasesShare.refl
    (each : ∀ tag schema, (tag, some schema) ∈ cases → shares schema schema schema) :
    CasesShare shares cases cases cases := by
  induction cases with
  | nil => exact .nil
  | cons first rest ih =>
    obtain ⟨tag, payload⟩ := first
    have later := ih fun tag schema mem => each tag schema (List.mem_cons_of_mem _ mem)
    cases payload with
    | none => exact .unit later
    | some schema => exact .payload (each _ _ List.mem_cons_self) later

/-- A tag is unknown to all, known to all without a payload, or its payload is shared. -/
theorem CasesShare.findCase (share : CasesShare shares cases cases' cases'') (tag : String) :
    (findCase tag cases = none ∧ findCase tag cases' = none ∧ findCase tag cases'' = none) ∨
      (findCase tag cases = some none ∧ findCase tag cases' = some none ∧
        findCase tag cases'' = some none) ∨
      ∃ shared written read, findCase tag cases = some (some shared) ∧
        findCase tag cases' = some (some written) ∧ findCase tag cases'' = some (some read) ∧
        shares shared written read := by
  induction share with
  | nil => exact .inl ⟨rfl, rfl, rfl⟩
  | @unit t _ _ _ _ ih =>
    simp only [Schema.findCase]
    split
    · exact .inr (.inl ⟨rfl, rfl, rfl⟩)
    · exact ih
  | @payload t shared written read _ _ _ here _ ih =>
    simp only [Schema.findCase]
    split
    · exact .inr (.inr ⟨shared, written, read, rfl, rfl, rfl, here⟩)
    · exact ih

end Cases

/-! ### Acceptance across versions -/

namespace Shares

variable {shared written read : Schema}

/-- A schema without repeated names is shared with itself. -/
theorem refl (distinct : shared.Distinct) : Shares shared shared shared := by
  induction shared with
  | any | null | bool | nat | int | float | text | bytes => exact .scalar rfl
  | array element ih => exact .array (ih distinct)
  | optional inner ih => exact .optional (ih distinct)
  | record fields ih =>
    exact .record distinct.1 distinct.1
      (.refl fun name schema mem => ih name schema mem (distinct.2.of_mem mem))
  | variant cases ih =>
    exact .variant (.refl fun tag schema mem => ih tag schema mem (CasesDistinct.of_mem distinct mem))

/-- Versions agree on what may be missing. -/
theorem isOptional (h : Shares shared written read) :
    written.isOptional = shared.isOptional ∧ read.isOptional = shared.isOptional := by
  cases h <;> exact ⟨rfl, rfl⟩

/-- **What the writer's version accepts** is accepted by the shared schema. -/
theorem check_eq_none (h : Shares shared written read) {v : Value}
    (accepted : written.check v = none) : shared.check v = none := by
  induction shared generalizing written read v with
  | any | null | bool | nat | int | float | text | bytes =>
    cases h
    exact accepted
  | array element ih =>
    cases h with
    | scalar scalar => cases scalar
    | array h =>
      cases v with
      | array items =>
        rw [check_array_eq_none_iff] at accepted ⊢
        exact fun v mem => ih h (accepted v mem)
      | _ => simp [check] at accepted
  | optional inner ih =>
    cases h with
    | scalar scalar => cases scalar
    | optional h =>
      rw [check_optional_eq_none_iff] at accepted ⊢
      exact accepted.imp_right (ih h)
  | record fields ih =>
    cases h with
    | scalar scalar => cases scalar
    | record _ _ share =>
      cases v with
      | record present =>
        rw [check_record_eq_none_iff] at accepted ⊢
        intro name shared mem
        obtain ⟨written, read, mem', _, both⟩ := share.of_mem mem
        have field := accepted name written mem'
        cases found : Fields.get? name present with
        | none =>
          rw [found] at field
          exact both.isOptional.1.symm.trans field
        | some v =>
          rw [found] at field
          exact ih name shared mem both field
      | _ => simp [check] at accepted
  | variant cases ih =>
    cases h with
    | scalar scalar => cases scalar
    | variant share =>
      cases v with
      | variant tag payload =>
        rw [check_variant_eq_none_iff] at accepted ⊢
        obtain ⟨inner, found, fine⟩ := accepted
        rcases share.findCase tag with ⟨-, none', -⟩ | ⟨unit, unit', -⟩ |
          ⟨shared, written, read, shared_found, written_found, -, both⟩
        · simp [none'] at found
        · rw [unit'] at found
          exact ⟨none, unit, Option.some.inj found ▸ fine⟩
        · rw [written_found] at found
          obtain rfl := Option.some.inj found
          refine ⟨some shared, shared_found, ?_⟩
          cases payload with
          | none => exact fine.elim
          | some v => exact ih tag shared (mem_of_findCase shared_found) both fine
      | _ => simp [check] at accepted

/-- **The normal form** under the shared schema is accepted by the reader's version. -/
theorem check_normal (h : Shares shared written read) {v : Value} (formed : v.WellFormed)
    (accepted : shared.check v = none) : read.check (shared.normal v) = none := by
  induction shared generalizing written read v with
  | any | null | bool | nat | int | float | text | bytes =>
    cases h
    cases v <;> exact accepted
  | array element ih =>
    cases h with
    | scalar scalar => cases scalar
    | array h =>
      cases v with
      | array items =>
        rw [check_array_eq_none_iff] at accepted
        rw [normal, check_array_eq_none_iff]
        intro w mem
        obtain ⟨v, here, rfl⟩ := List.mem_map.mp mem
        exact ih h (Value.wellFormed_of_mem_items formed here) (accepted v here)
      | _ => simp [check] at accepted
  | optional inner ih =>
    cases h with
    | scalar scalar => cases scalar
    | optional h =>
      rw [check_optional_eq_none_iff] at accepted ⊢
      rw [normal, isNull_normal]
      exact accepted.imp_right (ih h formed)
  | record fields ih =>
    cases h with
    | scalar scalar => cases scalar
    | record _ read_distinct share =>
      cases v with
      | record present =>
        obtain ⟨ordered, all_formed⟩ := formed
        rw [check_record_eq_none_iff] at accepted
        rw [normal, check_record_eq_none_iff]
        intro name read mem
        have distinct := share.names_sublist.nodup read_distinct
        rcases share.of_mem_read read_distinct mem with
          ⟨shared, _, shared_mem, -, both⟩ | ⟨optional, missing, -⟩
        -- What the normal form says of a shared field is the normal form of what the record carries
        -- in it.
        · have fine := (accepted name shared shared_mem).carried
          rw [get?_normal_record distinct ordered shared_mem]
          cases left : shared.carried (Fields.get? name present) with
          | none =>
            rw [left] at fine
            exact both.isOptional.2.trans fine
          | some v =>
            rw [left] at fine
            have found : Fields.get? name present = some v := (Option.filter_eq_some_iff.mp left).1
            exact ih name shared shared_mem both (Value.wellFormed_of_mem_fields all_formed
              (Fields.mem_of_get?_eq_some found)) fine
        -- It says nothing of the fields that only the reader knows.
        · rw [get?_normal_record_of_not_mem ordered missing]
          exact optional
      | _ => simp [check] at accepted
  | variant cases ih =>
    cases h with
    | scalar scalar => cases scalar
    | variant share =>
      cases v with
      | variant tag payload =>
        obtain ⟨inner, found, fine⟩ := check_variant_eq_none_iff.mp accepted
        rcases share.findCase tag with ⟨nothing, -⟩ | ⟨unit, -, unit''⟩ |
          ⟨shared, _, read, shared_found, -, read_found, both⟩
        · simp [nothing] at found
        · rw [unit] at found
          obtain rfl := Option.some.inj found
          cases payload with
          | none => exact check_variant_eq_none_iff.mpr ⟨none, unit'', trivial⟩
          | some v => exact fine.elim
        · rw [shared_found] at found
          obtain rfl := Option.some.inj found
          cases payload with
          | none => exact fine.elim
          | some v =>
            rw [normal, check_variant_eq_none_iff, normalPayload_of_findCase shared_found]
            exact ⟨some read, read_found,
              ih tag shared (mem_of_findCase shared_found) both formed fine⟩
      | _ => simp [check] at accepted

end Shares

/-! ### Versions that grew -/

section Grown

variable {fields fields' : List (String × Schema)} {cases cases' : List (String × Option Schema)}

/-- A record that grew shares its older fields, whoever writes. -/
theorem FieldsGrow.shares (grow : FieldsGrow GrowsTo fields fields')
    (each : ∀ name older, (name, older) ∈ fields → ∀ newer, GrowsTo older newer →
      Shares older older newer ∧ Shares older newer older) :
    FieldsShare Shares fields fields fields' ∧ FieldsShare Shares fields fields' fields := by
  induction grow with
  | append optional => exact ⟨.read optional, .written _⟩
  | keep here _ ih =>
    obtain ⟨forth, back⟩ := each _ _ List.mem_cons_self _ here
    obtain ⟨rest, rest'⟩ := ih fun name older mem => each name older (List.mem_cons_of_mem _ mem)
    exact ⟨.both forth rest, .both back rest'⟩

/-- A tagged value whose payloads grew shares its older payloads, whoever writes. -/
theorem CasesGrow.shares (grow : CasesGrow GrowsTo cases cases')
    (each : ∀ tag older, (tag, some older) ∈ cases → ∀ newer, GrowsTo older newer →
      Shares older older newer ∧ Shares older newer older) :
    CasesShare Shares cases cases cases' ∧ CasesShare Shares cases cases' cases := by
  induction grow with
  | nil => exact ⟨.nil, .nil⟩
  | unit _ ih =>
    obtain ⟨rest, rest'⟩ := ih fun tag older mem => each tag older (List.mem_cons_of_mem _ mem)
    exact ⟨.unit rest, .unit rest'⟩
  | payload here _ ih =>
    obtain ⟨forth, back⟩ := each _ _ List.mem_cons_self _ here
    obtain ⟨rest, rest'⟩ := ih fun tag older mem => each tag older (List.mem_cons_of_mem _ mem)
    exact ⟨.payload forth rest, .payload back rest'⟩

end Grown

/-- A schema that grew **shares its older version**, whoever writes. -/
theorem GrowsTo.shares {older newer : Schema} (grows : GrowsTo older newer)
    (distinct : older.Distinct) : Shares older older newer ∧ Shares older newer older := by
  induction older generalizing newer with
  | any | null | bool | nat | int | float | text | bytes =>
    cases grows
    exact ⟨.scalar rfl, .scalar rfl⟩
  | array element ih =>
    cases grows with
    | refl => exact ⟨.refl distinct, .refl distinct⟩
    | array grows => exact (ih grows distinct).imp .array .array
  | optional inner ih =>
    cases grows with
    | refl => exact ⟨.refl distinct, .refl distinct⟩
    | optional grows => exact (ih grows distinct).imp .optional .optional
  | record fields ih =>
    cases grows with
    | refl => exact ⟨.refl distinct, .refl distinct⟩
    | record fresh grow =>
      exact (grow.shares fun name older mem _ grows => ih name older mem grows (distinct.2.of_mem mem)).imp
        (.record distinct.1 fresh) (.record fresh distinct.1)
  | variant cases ih =>
    cases grows with
    | refl => exact ⟨.refl distinct, .refl distinct⟩
    | variant grow =>
      exact (grow.shares fun tag older mem _ grows =>
        ih tag older mem grows (CasesDistinct.of_mem distinct mem)).imp .variant .variant

end CertifiedCalls.Schema
