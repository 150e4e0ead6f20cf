/-! # Schemas
A **schema** is the accepted shape of a request or of a reply. -/

namespace CertifiedCalls

/-- The **width** of a natural number. -/
inductive NatWidth where
  /-- Eight bits. -/
  | bits8
  /-- Sixteen bits. -/
  | bits16
  /-- Thirty-two bits. -/
  | bits32
  /-- Sixty-four bits. -/
  | bits64
  /-- A hundred and twenty-eight bits. -/
  | bits128
deriving DecidableEq, Repr

namespace NatWidth

/-- How many bits a width has. -/
def bits : NatWidth → Nat
  | .bits8 => 8
  | .bits16 => 16
  | .bits32 => 32
  | .bits64 => 64
  | .bits128 => 128

/-- The greatest number of a width. -/
def max (width : NatWidth) : Nat := 1 <<< width.bits - 1

end NatWidth

/-- A **schema**. -/
inductive Schema where
  /-- Anything. -/
  | any
  /-- Nothing. -/
  | null
  /-- A truth value. -/
  | bool
  /-- A natural number of bounded width. -/
  | nat (width : NatWidth)
  /-- A signed 64-bit integer. -/
  | int
  /-- A double-precision number. -/
  | float
  /-- A text. -/
  | text
  /-- A byte string, of a fixed length if one is given. -/
  | bytes (length : Option Nat)
  /-- A sequence whose elements share a schema. -/
  | array (element : Schema)
  /-- Nothing, or what the inner schema accepts. As a record field it may be absent. -/
  | optional (inner : Schema)
  /-- A record with these fields, in wire order. -/
  | record (fields : List (String × Schema))
  /-- One of these tags, with a payload where a schema is given. -/
  | variant (cases : List (String × Option Schema))
deriving Repr, Inhabited

namespace Schema

/-- Whether a record field of a schema may be absent. -/
def isOptional : Schema → Bool
  | .optional _ => true
  | _ => false

/-- The first case of a tag among cases. -/
def findCase (tag : String) : List (String × Option Schema) → Option (Option Schema)
  | [] => none
  | (t, payload) :: rest => if t = tag then some payload else findCase tag rest

/-- The case of a tag: its payload's schema, if it has one. -/
def case? (tag : String) : Schema → Option (Option Schema)
  | .variant cases => findCase tag cases
  | _ => none

/-- A few words on what a schema accepts. -/
def describe : Schema → String
  | .any => "any"
  | .null => "null"
  | .bool => "bool"
  | .nat width => "nat" ++ toString width.bits
  | .int => "int64"
  | .float => "float"
  | .text => "text"
  | .bytes (some n) => "bytes[" ++ toString n ++ "]"
  | .bytes none => "bytes"
  | .array element => "array of " ++ element.describe
  | .optional inner => "optional " ++ inner.describe
  | .record _ => "record"
  | .variant cases => "one of [" ++ String.intercalate ", " (cases.map (·.1)) ++ "]"

end Schema

end CertifiedCalls
