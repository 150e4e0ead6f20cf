import CertifiedCalls.Schema.Basic
import CertifiedCalls.Value.Basic

/-! # Checking values against schemas
A value that a schema does not accept has a first **mismatch**: fields are visited in the schema's
order, elements in their own, and the walk stops at the first fault. -/

namespace CertifiedCalls

/-- One **step** down into a value. -/
inductive PathStep where
  /-- To the element at an index. -/
  | index (i : Nat)
  /-- To the field of a name. -/
  | field (name : String)
  /-- To the payload of a tag. -/
  | case (tag : String)
deriving DecidableEq, Repr

/-- How a step is written at the end of a path. -/
def PathStep.toText : PathStep → String
  | .index i => "[" ++ toString i ++ "]"
  | .field name => "." ++ name
  | .case tag => "::" ++ tag

/-- The text of a path from the root. -/
def pathText (path : List PathStep) : String :=
  path.foldl (fun s step => s ++ step.toText) "$"

/-- What a schema wanted at some place. -/
inductive Expectation where
  /-- A value of this shape. -/
  | shape (schema : Schema)
  /-- A tag without a payload. -/
  | noPayload
deriving Repr

/-- What stood at some place. -/
inductive Finding where
  /-- A value. -/
  | value (v : Value)
  /-- Nothing at all. -/
  | absent
deriving Repr

/-- A **mismatch** between a value and a schema. -/
structure Mismatch where
  /-- Where it is. -/
  path : List PathStep
  /-- What was wanted. -/
  expected : Expectation
  /-- What stood there. -/
  found : Finding
deriving Repr

namespace Mismatch

/-- The wording of what was wanted. -/
def expectedText (m : Mismatch) : String :=
  match m.expected with
  | .shape schema => schema.describe
  | .noPayload => "no payload"

/-- The wording of what stood there. -/
def foundText (m : Mismatch) : String :=
  match m.found with
  | .value v => v.describe
  | .absent => "absent"

/-- The same mismatch seen from one step further up. -/
def under (step : PathStep) (m : Mismatch) : Mismatch := { m with path := step :: m.path }

end Mismatch

namespace Schema

/-- The mismatch of a whole value. -/
def mismatch (schema : Schema) (v : Value) : Mismatch := ⟨[], .shape schema, .value v⟩

/-- The first of the items, counted from `i`, in which a fault is found. -/
def firstFault (fault : Value → Option Mismatch) (i : Nat) : List Value → Option Mismatch
  | [] => none
  | v :: rest =>
    match fault v with
    | some m => some (m.under (.index i))
    | none => firstFault fault (i + 1) rest

mutual

/-- The first **mismatch** of a value with a schema, or `none` when the schema accepts it. -/
def check : Schema → Value → Option Mismatch
  | .any, _ => none
  | .null, .null => none
  | .bool, .bool _ => none
  | .nat width, .nat n => if n ≤ width.max then none else some (mismatch (.nat width) (.nat n))
  | .int, .int _ => none
  | .float, .float _ => none
  | .text, .text _ => none
  | .bytes none, .bytes _ => none
  | .bytes (some n), .bytes octets =>
    if octets.length = n then none else some (mismatch (.bytes (some n)) (.bytes octets))
  | .array element, .array items => firstFault (fun v => check element v) 0 items
  | .optional inner, v => if v.isNull then none else check inner v
  | .record fields, .record present => checkFields fields present
  | .variant cases, .variant tag payload =>
    match checkCases cases tag payload with
    | some verdict => verdict
    | none => some (mismatch (.variant cases) (.variant tag payload))
  | schema, v => some (mismatch schema v)

/-- The first mismatch among the fields of a record schema. -/
def checkFields : List (String × Schema) → Fields Value → Option Mismatch
  | [], _ => none
  | (name, schema) :: rest, present =>
    match Fields.get? name present with
    | some v =>
      match check schema v with
      | some m => some (m.under (.field name))
      | none => checkFields rest present
    | none =>
      if schema.isOptional then checkFields rest present
      else some ⟨[.field name], .shape schema, .absent⟩

/-- What the first case of a tag says of a payload, or `none` when no case has the tag. -/
def checkCases : List (String × Option Schema) → String → Option Value → Option (Option Mismatch)
  | [], _, _ => none
  | (t, schema) :: rest, tag, payload =>
    if t = tag then
      some <| match schema, payload with
        | none, none => none
        | some inner, some v => (check inner v).map (·.under (.case tag))
        | some inner, none => some ⟨[.case tag], .shape inner, .absent⟩
        | none, some v => some ⟨[.case tag], .noPayload, .value v⟩
    else checkCases rest tag payload

end

/-- Whether a schema accepts a value. -/
def accepts (schema : Schema) (v : Value) : Bool := (check schema v).isNone

end Schema

end CertifiedCalls
