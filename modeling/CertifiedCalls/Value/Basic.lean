import CertifiedCalls.Bytes
import CertifiedCalls.Decimal.Binary64
import CertifiedCalls.Fields

/-! # Values
A **value** is an argument or a reply before it is mapped to anything more specific. The fields of
a record are in increasing order of their names, and an absent field is a missing entry. -/

namespace CertifiedCalls

/-- A **value**. -/
inductive Value where
  /-- Nothing. -/
  | null
  /-- A truth value. -/
  | bool (b : Bool)
  /-- A natural number below `2 ^ 128`. -/
  | nat (n : Nat)
  /-- A signed 64-bit integer. -/
  | int (i : Int64)
  /-- A double-precision number. -/
  | float (x : Binary64)
  /-- A text. -/
  | text (s : String)
  /-- A byte string. -/
  | bytes (octets : Bytes)
  /-- A sequence. -/
  | array (items : List Value)
  /-- Named values, in increasing order of their names. -/
  | record (fields : List (String × Value))
  /-- A tagged value, with or without a payload. -/
  | variant (tag : String) (payload : Option Value)
deriving Repr, Inhabited

/-- Naturals lie below this bound. -/
def Value.natBound : Nat := 340282366920938463463374607431768211456

namespace Value

/-- Whether a value is nothing. -/
def isNull : Value → Bool
  | .null => true
  | _ => false

/-- The record of the given pairs without those that carry nothing, the last pair of a name
winning. -/
def recordOf (pairs : List (String × Value)) : Value :=
  .record (Fields.ofList (pairs.filter fun pair => !pair.2.isNull))

/-- A value, or nothing. -/
def optional (v : Option Value) : Value := v.getD .null

/-- The field of a record. -/
def get? (name : String) : Value → Option Value
  | .record fields => Fields.get? name fields
  | _ => none

/-- The natural number of a value. -/
def nat? : Value → Option Nat
  | .nat n => some n
  | _ => none

/-- The text of a value. -/
def text? : Value → Option String
  | .text s => some s
  | _ => none

/-- The octets of a value. -/
def bytes? : Value → Option Bytes
  | .bytes octets => some octets
  | _ => none

/-- The tag and the payload of a value. -/
def variant? : Value → Option (String × Option Value)
  | .variant tag payload => some (tag, payload)
  | _ => none

/-- A few words on the shape of a value. -/
def describe : Value → String
  | .null => "null"
  | .bool _ => "bool"
  | .nat n => "nat " ++ toString n
  | .int i => "int " ++ toString i.toInt
  | .float _ => "float"
  | .text _ => "text"
  | .bytes octets => "bytes[" ++ toString octets.length ++ "]"
  | .array items => "array[" ++ toString items.length ++ "]"
  | .record _ => "record"
  | .variant tag _ => "variant " ++ tag

mutual

/-- Equality of values, with the equality of numbers at the doubles: one that is no number equals
nothing, and the two zeros are equal. -/
def same : Value → Value → Bool
  | .null, .null => true
  | .bool a, .bool b => a == b
  | .nat a, .nat b => a == b
  | .int a, .int b => a == b
  | .float a, .float b => a.same b
  | .text a, .text b => a == b
  | .bytes a, .bytes b => a == b
  | .array a, .array b => sameItems a b
  | .record a, .record b => sameFields a b
  | .variant s none, .variant t none => s == t
  | .variant s (some a), .variant t (some b) => s == t && a.same b
  | _, _ => false

/-- Equality of sequences. -/
def sameItems : List Value → List Value → Bool
  | [], [] => true
  | a :: as, b :: bs => a.same b && sameItems as bs
  | _, _ => false

/-- Equality of fields. -/
def sameFields : List (String × Value) → List (String × Value) → Bool
  | [], [] => true
  | (s, a) :: as, (t, b) :: bs => s == t && (a.same b && sameFields as bs)
  | _, _ => false

end

mutual

/-- A value is **well formed** when its naturals are in range and its records in order. -/
def WellFormed : Value → Prop
  | .nat n => n < natBound
  | .array items => AllWellFormed items
  | .record fields => Fields.Ordered fields ∧ FieldsWellFormed fields
  | .variant _ (some payload) => payload.WellFormed
  | _ => True

/-- All items are well formed. -/
def AllWellFormed : List Value → Prop
  | [] => True
  | v :: rest => v.WellFormed ∧ AllWellFormed rest

/-- All fields are well formed. -/
def FieldsWellFormed : List (String × Value) → Prop
  | [] => True
  | (_, v) :: rest => v.WellFormed ∧ FieldsWellFormed rest

end

end Value

end CertifiedCalls
