import CertifiedCalls.Proofs.Codec.Acceptance
import Mathlib.Algebra.Group.Nat.Defs

/-! # Everything that is wrong with a value
The check of a value stops at the first fault. Beside it stand here the list of **all** there is to
complain about, in depth-first order (`complaints`), and what it is for a value to **inhabit** a
schema. The check finds nothing exactly when the list is empty, which is when the value inhabits the
schema; otherwise it finds the first of the list (`check_decides`). -/

namespace CertifiedCalls

/-- A **complaint** about a value: the texts of a mismatch. -/
structure Complaint where
  /-- Where it is, from `$` on. -/
  path : String
  /-- What was wanted. -/
  expected : String
  /-- What stood there. -/
  found : String
deriving DecidableEq, Repr

namespace Mismatch

/-- The complaint about a mismatch that was found below some steps. -/
def complaintBelow (above : List PathStep) (m : Mismatch) : Complaint :=
  ⟨pathText (above ++ m.path), m.expectedText, m.foundText⟩

/-- The complaint about a mismatch. -/
def complaint (m : Mismatch) : Complaint := m.complaintBelow []

/-- It does not matter to which side of a step the path is cut. -/
theorem complaintBelow_under (above : List PathStep) (step : PathStep) (m : Mismatch) :
    (m.under step).complaintBelow above = m.complaintBelow (above ++ [step]) := by
  simp only [complaintBelow, under, expectedText, foundText, List.append_assoc, List.singleton_append]

end Mismatch

/-- A step is written behind those above it. -/
theorem pathText_concat (above : List PathStep) (step : PathStep) :
    pathText (above ++ [step]) = pathText above ++ step.toText := by
  rw [pathText, List.foldl_append, List.foldl_cons, List.foldl_nil, pathText]

namespace Schema

/-! ### All complaints -/

mutual

/-- **All complaints** about a value at a path, depth first: fields in the schema's order, elements in
their own, a payload below its tag. -/
def complaints (path : String) : Schema → Value → List Complaint
  | .any, _ => []
  | .null, .null => []
  | .bool, .bool _ => []
  | .nat width, .nat n =>
    if n < 2 ^ width.bits then [] else [⟨path, describe (.nat width), Value.describe (.nat n)⟩]
  | .int, .int _ => []
  | .float, .float _ => []
  | .text, .text _ => []
  | .bytes none, .bytes _ => []
  | .bytes (some length), .bytes octets =>
    if octets.length = length then []
    else [⟨path, describe (.bytes (some length)), Value.describe (.bytes octets)⟩]
  | .array element, .array items =>
    items.zipIdx.flatMap fun item => complaints (path ++ "[" ++ toString item.2 ++ "]") element item.1
  | .optional inner, v => if v.isNull then [] else complaints path inner v
  | .record fields, .record present => fieldComplaints path fields present
  | .variant cases, .variant tag payload =>
    caseComplaints path [⟨path, describe (.variant cases), Value.describe (.variant tag payload)⟩]
      cases tag payload
  | schema, v => [⟨path, schema.describe, v.describe⟩]

/-- All complaints about the fields of a record. -/
def fieldComplaints (path : String) : List (String × Schema) → Fields Value → List Complaint
  | [], _ => []
  | (name, schema) :: rest, present =>
    (match Fields.get? name present with
      | some v => complaints (path ++ "." ++ name) schema v
      | none =>
        if schema.isOptional then [] else [⟨path ++ "." ++ name, schema.describe, "absent"⟩])
      ++ fieldComplaints path rest present

/-- All complaints about a tagged value, which are given ones where no case has its tag. -/
def caseComplaints (path : String) (undeclared : List Complaint) :
    List (String × Option Schema) → String → Option Value → List Complaint
  | [], _, _ => undeclared
  | (t, inner) :: rest, tag, payload =>
    if t = tag then
      match inner, payload with
      | none, none => []
      | some schema, some v => complaints (path ++ "::" ++ tag) schema v
      | some schema, none => [⟨path ++ "::" ++ tag, schema.describe, "absent"⟩]
      | none, some v => [⟨path ++ "::" ++ tag, "no payload", v.describe⟩]
    else caseComplaints path undeclared rest tag payload

end

/-! ### Inhabitants -/

/-- A tag is **declared** with the payload of its first case. -/
def Declares (cases : List (String × Option Schema)) (tag : String) (inner : Option Schema) : Prop :=
  ∃ front back, cases = front ++ (tag, inner) :: back ∧ tag ∉ front.map Prod.fst

/-- A value **inhabits** a schema. -/
inductive Inhabits : Schema → Value → Prop
  /-- Anything is anything. -/
  | any (v : Value) : Inhabits .any v
  /-- Nothing. -/
  | null : Inhabits .null .null
  /-- A truth value. -/
  | bool (b : Bool) : Inhabits .bool (.bool b)
  /-- A natural number that fits the width. -/
  | nat {width : NatWidth} {n : Nat} (fits : n < 2 ^ width.bits) : Inhabits (.nat width) (.nat n)
  /-- A signed integer. -/
  | int (i : Int64) : Inhabits .int (.int i)
  /-- A double-precision number. -/
  | float (x : Binary64) : Inhabits .float (.float x)
  /-- A text. -/
  | text (s : String) : Inhabits .text (.text s)
  /-- A byte string of any length. -/
  | bytes (octets : Bytes) : Inhabits (.bytes none) (.bytes octets)
  /-- A byte string of the length that is wanted. -/
  | fixedBytes (octets : Bytes) : Inhabits (.bytes (some octets.length)) (.bytes octets)
  /-- A sequence of inhabitants. -/
  | array {element : Schema} {items : List Value} (each : ∀ v ∈ items, Inhabits element v) :
    Inhabits (.array element) (.array items)
  /-- Nothing, where something is optional. -/
  | absent (inner : Schema) : Inhabits (.optional inner) .null
  /-- Something optional. -/
  | present {inner : Schema} {v : Value} (here : Inhabits inner v) : Inhabits (.optional inner) v
  /-- A record: what is not optional is there, and what is there is as it is wanted. Other fields may
  stand beside. -/
  | record {fields : List (String × Schema)} {present : Fields Value}
    (required : ∀ name schema, (name, schema) ∈ fields → schema.isOptional = false →
      ∃ v, Fields.get? name present = some v)
    (each : ∀ name schema v, (name, schema) ∈ fields → Fields.get? name present = some v →
      Inhabits schema v) :
    Inhabits (.record fields) (.record present)
  /-- A declared tag without a payload. -/
  | bare {cases : List (String × Option Schema)} {tag : String}
    (declared : Declares cases tag none) : Inhabits (.variant cases) (.variant tag none)
  /-- A declared tag with its payload. -/
  | tagged {cases : List (String × Option Schema)} {tag : String} {inner : Schema} {payload : Value}
    (declared : Declares cases tag (some inner)) (here : Inhabits inner payload) :
    Inhabits (.variant cases) (.variant tag (some payload))

/-- A tag is declared with the payload that the search for its case finds. -/
theorem findCase_eq_some_iff {cases : List (String × Option Schema)} {tag : String}
    {inner : Option Schema} : findCase tag cases = some inner ↔ Declares cases tag inner := by
  induction cases with
  | nil => simp [findCase, Declares]
  | cons first rest ih =>
    obtain ⟨t, p⟩ := first
    rw [findCase]
    by_cases same : t = tag
    · rw [if_pos same, Option.some.injEq]
      constructor
      · rintro rfl
        exact ⟨[], rest, by rw [same]; rfl, List.not_mem_nil⟩
      · rintro ⟨front, back, whole, fresh⟩
        cases front with
        | nil => exact (Prod.mk.inj (List.cons.inj whole).1).2
        | cons other front =>
          rw [← (List.cons.inj whole).1] at fresh
          exact absurd (List.mem_cons.mpr (.inl same.symm)) fresh
    · rw [if_neg same, ih]
      constructor
      · rintro ⟨front, back, rfl, fresh⟩
        refine ⟨(t, p) :: front, back, rfl, fun mem => ?_⟩
        exact (List.mem_cons.mp mem).elim (fun e => same e.symm) fresh
      · rintro ⟨front, back, whole, fresh⟩
        cases front with
        | nil => exact absurd (Prod.mk.inj (List.cons.inj whole).1).1 same
        | cons other front =>
          exact ⟨front, back, (List.cons.inj whole).2, fun mem => fresh (List.mem_cons_of_mem _ mem)⟩

/-- A number fits a width when it has no more bits. -/
theorem le_max_iff {width : NatWidth} {n : Nat} : n ≤ width.max ↔ n < 2 ^ width.bits := by
  cases width <;> exact Nat.lt_succ_iff.symm

/-- What the check accepts is what inhabits the schema. -/
theorem check_eq_none_iff_inhabits {schema : Schema} {v : Value} :
    check schema v = none ↔ Inhabits schema v := by
  induction schema generalizing v with
  | any => exact ⟨fun _ => .any v, fun _ => by rw [check]⟩
  | null | bool | int | float | text =>
    constructor
    · intro accepted
      cases v <;> first | constructor | simp [check] at accepted
    · intro inhabits
      cases inhabits
      rfl
  | nat width =>
    constructor
    · intro accepted
      cases v with
      | nat n => exact .nat (le_max_iff.mp (by simpa [check] using accepted))
      | _ => simp [check] at accepted
    · intro inhabits
      cases inhabits with
      | nat fits => rw [check, if_pos (le_max_iff.mpr fits)]
  | bytes length =>
    constructor
    · intro accepted
      cases v with
      | bytes octets =>
        cases length with
        | none => exact .bytes octets
        | some n =>
          obtain rfl : octets.length = n := by simpa [check] using accepted
          exact .fixedBytes octets
      | _ => cases length <;> simp [check] at accepted
    · intro inhabits
      cases inhabits with
      | bytes octets => rfl
      | fixedBytes octets => rw [check, if_pos rfl]
  | array element ih =>
    constructor
    · intro accepted
      cases v with
      | array items => exact .array fun v mem => ih.mp (check_array_eq_none_iff.mp accepted v mem)
      | _ => simp [check] at accepted
    · intro inhabits
      cases inhabits with
      | array each => exact check_array_eq_none_iff.mpr fun v mem => ih.mpr (each v mem)
  | optional inner ih =>
    rw [check_optional_eq_none_iff]
    constructor
    · rintro (null | accepted)
      · cases v with
        | null => exact .absent inner
        | _ => cases null
      · exact .present (ih.mp accepted)
    · intro inhabits
      cases inhabits with
      | absent => exact .inl rfl
      | present here => exact .inr (ih.mpr here)
  | record fields ih =>
    constructor
    · intro accepted
      cases v with
      | record present =>
        rw [check_record_eq_none_iff] at accepted
        refine .record (fun name schema mem must => ?_) fun name schema v mem there => ?_
        · have fine := accepted name schema mem
          cases there : Fields.get? name present with
          | some v => exact ⟨v, rfl⟩
          | none =>
            rw [there] at fine
            exact absurd (must.symm.trans fine) Bool.false_ne_true
        · have fine := accepted name schema mem
          rw [there] at fine
          exact (ih name schema mem).mp fine
      | _ => simp [check] at accepted
    · intro inhabits
      cases inhabits with
      | @record _ present required each =>
        rw [check_record_eq_none_iff]
        intro name schema mem
        cases there : Fields.get? name present with
        | some v => exact (ih name schema mem).mpr (each name schema v mem there)
        | none =>
          cases must : schema.isOptional with
          | true => exact must
          | false =>
            obtain ⟨v, found⟩ := required name schema mem must
            rw [there] at found
            cases found
  | variant cases ih =>
    constructor
    · intro accepted
      cases v with
      | variant tag payload =>
        obtain ⟨inner, found, fine⟩ := check_variant_eq_none_iff.mp accepted
        have declared := findCase_eq_some_iff.mp found
        cases inner with
        | none =>
          cases payload with
          | none => exact .bare declared
          | some v => cases fine
        | some schema =>
          cases payload with
          | none => cases fine
          | some v => exact .tagged declared ((ih tag schema (mem_of_findCase found)).mp fine)
      | _ => simp [check] at accepted
    · intro inhabits
      cases inhabits with
      | bare declared =>
        exact check_variant_eq_none_iff.mpr ⟨none, findCase_eq_some_iff.mpr declared, trivial⟩
      | tagged declared here =>
        have found := findCase_eq_some_iff.mpr declared
        exact check_variant_eq_none_iff.mpr
          ⟨_, found, (ih _ _ (mem_of_findCase found)).mpr here⟩

/-! ### The first complaint -/

/-- The first fault of a sequence is the first complaint about its elements. -/
theorem map_firstFault {fault : Value → Option Mismatch} {about : String → Value → List Complaint}
    {above : List PathStep} {items : List Value} {i : Nat}
    (each : ∀ v ∈ items, ∀ below, (fault v).map (·.complaintBelow below)
      = (about (pathText below) v).head?) :
    (firstFault fault i items).map (·.complaintBelow above)
      = ((items.zipIdx i).flatMap fun item =>
          about (pathText above ++ "[" ++ toString item.2 ++ "]") item.1).head? := by
  induction items generalizing i with
  | nil => rfl
  | cons v rest ih =>
    have here := each v List.mem_cons_self (above ++ [.index i])
    have later := ih (i := i + 1) fun w mem => each w (List.mem_cons_of_mem v mem)
    have path : pathText (above ++ [.index i]) = pathText above ++ "[" ++ toString i ++ "]" := by
      simp only [pathText_concat, PathStep.toText, String.append_assoc]
    rw [firstFault, List.zipIdx_cons, List.flatMap_cons, List.head?_append, ← path, ← here, ← later]
    cases fault v with
    | none => rfl
    | some m => rw [Option.map_some, Option.map_some, Option.some_or, Mismatch.complaintBelow_under]

/-- The first fault of a record is the first complaint about its fields. -/
theorem map_checkFields {fields : List (String × Schema)} {above : List PathStep}
    {present : Fields Value}
    (each : ∀ name schema, (name, schema) ∈ fields → ∀ v below,
      (check schema v).map (·.complaintBelow below) = (complaints (pathText below) schema v).head?) :
    (checkFields fields present).map (·.complaintBelow above)
      = (fieldComplaints (pathText above) fields present).head? := by
  induction fields with
  | nil => rfl
  | cons first rest ih =>
    obtain ⟨name, schema⟩ := first
    have later := ih fun n s mem => each n s (List.mem_cons_of_mem _ mem)
    have path : pathText (above ++ [.field name]) = pathText above ++ "." ++ name := by
      simp only [pathText_concat, PathStep.toText, String.append_assoc]
    rw [checkFields, fieldComplaints, List.head?_append, ← later, ← path]
    cases Fields.get? name present with
    | some v =>
      have here := each name schema List.mem_cons_self v (above ++ [.field name])
      dsimp only
      rw [← here]
      cases check schema v with
      | none => rfl
      | some m => exact congrArg some (m.complaintBelow_under above (.field name))
    | none =>
      dsimp only
      cases schema.isOptional <;> rfl

/-- The first fault of a tagged value is the first complaint about it. -/
theorem head?_caseComplaints {cases : List (String × Option Schema)} {tag : String}
    {payload : Option Value} {above : List PathStep} {undeclared : List Complaint}
    (each : ∀ t schema, (t, some schema) ∈ cases → ∀ v below,
      (check schema v).map (·.complaintBelow below) = (complaints (pathText below) schema v).head?) :
    (caseComplaints (pathText above) undeclared cases tag payload).head?
      = match findCase tag cases with
        | some inner => (verdict tag inner payload).map (·.complaintBelow above)
        | none => undeclared.head? := by
  induction cases with
  | nil => rfl
  | cons first rest ih =>
    obtain ⟨t, inner⟩ := first
    have path : pathText (above ++ [.case tag]) = pathText above ++ "::" ++ tag := by
      simp only [pathText_concat, PathStep.toText, String.append_assoc]
    rw [findCase]
    by_cases same : t = tag
    · rw [if_pos same]
      cases inner with
      | none =>
        cases payload with
        | none => rw [caseComplaints, if_pos same]; rfl
        | some v => rw [caseComplaints, if_pos same, ← path]; rfl
      | some schema =>
        cases payload with
        | none => rw [caseComplaints, if_pos same, ← path]; rfl
        | some v =>
          have here := each t schema List.mem_cons_self v (above ++ [.case tag])
          rw [caseComplaints, if_pos same, ← path, ← here]
          dsimp only
          rw [verdict, Option.map_map]
          exact Option.map_congr fun m _ => (m.complaintBelow_under above (.case tag)).symm
    · have later : caseComplaints (pathText above) undeclared ((t, inner) :: rest) tag payload
          = caseComplaints (pathText above) undeclared rest tag payload := by
        cases inner <;> cases payload <;> exact if_neg same
      rw [if_neg same, later]
      exact ih fun t s mem => each t s (List.mem_cons_of_mem _ mem)

/-- The complaint about a value as a whole. -/
theorem complaintBelow_mismatch (schema : Schema) (v : Value) (above : List PathStep) :
    (mismatch schema v).complaintBelow above = ⟨pathText above, schema.describe, v.describe⟩ := by
  rw [mismatch, Mismatch.complaintBelow, List.append_nil]
  rfl

/-- What the check finds below some steps is the first complaint about the value that stands there. -/
theorem map_check (schema : Schema) (v : Value) (above : List PathStep) :
    (check schema v).map (·.complaintBelow above) = (complaints (pathText above) schema v).head? := by
  induction schema generalizing v above with
  | any => rfl
  | null | bool | int | float | text => cases v <;> simp [check, complaints, complaintBelow_mismatch]
  | nat width =>
    cases v with
    | nat n =>
      rw [check, complaints]
      by_cases fits : n ≤ width.max
      · rw [if_pos fits, if_pos (le_max_iff.mp fits)]
        rfl
      · rw [if_neg fits, if_neg (fun less => fits (le_max_iff.mpr less)), Option.map_some,
          complaintBelow_mismatch]
        rfl
    | _ => simp [check, complaints, complaintBelow_mismatch]
  | bytes length =>
    cases v with
    | bytes octets =>
      cases length with
      | none => rfl
      | some n =>
        rw [check, complaints]
        split
        · rfl
        · rw [Option.map_some, complaintBelow_mismatch]
          rfl
    | _ => cases length <;> simp [check, complaints, complaintBelow_mismatch]
  | array element ih =>
    cases v with
    | array items =>
      rw [check, complaints]
      let about (path : String) (v : Value) : List Complaint := complaints path element v
      have each : ∀ v ∈ items, ∀ below, (check element v).map (·.complaintBelow below)
          = (about (pathText below) v).head? := fun v _ below => ih v below
      exact map_firstFault each
    | _ => simp [check, complaints, complaintBelow_mismatch]
  | optional inner ih =>
    rw [check, complaints]
    cases v.isNull with
    | true => rfl
    | false => exact ih v above
  | record fields ih =>
    cases v with
    | record present => exact map_checkFields ih
    | _ => simp [check, complaints, complaintBelow_mismatch]
  | variant cases ih =>
    cases v with
    | variant tag payload =>
      rw [check, complaints, head?_caseComplaints ih, checkCases_eq]
      cases findCase tag cases with
      | none => exact congrArg some (complaintBelow_mismatch _ _ above)
      | some inner => rfl
    | _ => simp [check, complaints, complaintBelow_mismatch]

/-- **The check decides what inhabits a schema and finds the first thing that is wrong.** -/
theorem check_decides (schema : Schema) (v : Value) :
    (check schema v).map (·.complaint) = (complaints "$" schema v).head? ∧
    (check schema v = none ↔ complaints "$" schema v = []) ∧
    (complaints "$" schema v = [] ↔ Inhabits schema v) := by
  have first : (check schema v).map (·.complaint) = (complaints "$" schema v).head? :=
    map_check schema v []
  have empty : check schema v = none ↔ complaints "$" schema v = [] := by
    rw [← List.head?_eq_none_iff, ← first, Option.map_eq_none_iff]
  exact ⟨first, empty, empty.symm.trans check_eq_none_iff_inhabits⟩

/-- Everything that is wrong with a record of which the check tells the first fault only. -/
example : complaints "$" (.record [("a", .array (.nat .bits8)), ("b", .bool),
      ("c", .variant [("t", some .text)])])
    (.record [("a", .array [.nat 7, .nat 256]), ("c", .variant "t" none)]) =
    [⟨"$.a[1]", "nat8", "nat 256"⟩, ⟨"$.b", "bool", "absent"⟩, ⟨"$.c::t", "text", "absent"⟩] := by
  decide +kernel

end Schema

end CertifiedCalls
