import CertifiedCalls.MessagePack.Item
import CertifiedCalls.Schema.Basic
import CertifiedCalls.Text.Numeral
import CertifiedCalls.Value.Basic

/-! # Conforming values
An item read without a schema does not yet have the shape that the caller built: a record may be a
sequence, a tag a text, a large number its numeral. **Conforming** reshapes what was read toward a
schema and leaves alone what does not fit, so that the check afterwards reports it. -/

namespace CertifiedCalls

open MessagePack (Item)

/-- The field name that the key of an entry stands for. -/
def fieldName : Item → String
  | .text s => s
  | .brokenText _ => ""
  | other => other.toText

mutual

/-- The value of an item whose schema is not known. -/
def Value.ofItem : Item → Value
  | .nil => .null
  | .bool b => .bool b
  | .int i => if 0 ≤ i then .nat i.toNat else .int (Int64.ofInt i)
  | .single x => .float x.widen
  | .double x => .float x
  | .text s => .text s
  | .brokenText _ => .null
  | .binary octets => .bytes octets
  | .array items => .array (Value.ofItems items)
  | .map entries => .record (Fields.ofList (Value.ofEntries entries))
  | .ext _ octets => .bytes octets

/-- The values of items. -/
def Value.ofItems : List Item → List Value
  | [] => []
  | item :: rest => Value.ofItem item :: Value.ofItems rest

/-- The named values of entries, in order and with their repetitions. -/
def Value.ofEntries : List (Item × Item) → List (String × Value)
  | [] => []
  | (key, item) :: rest => (fieldName key, Value.ofItem item) :: Value.ofEntries rest

end

namespace Schema

/-- The octet that a value counts as. -/
def octet? : Value → Option UInt8
  | .nat n => if n < 256 then some (UInt8.ofNat n) else none
  | _ => none

/-- A sequence of octets as a byte string; any other sequence stays as it is. -/
def bytesOfItems (items : List Value) : Value :=
  match items.mapM octet? with
  | some octets => .bytes octets
  | none => .array items

/-- The natural number that a text writes; any other text stays as it is. -/
def natOfText (s : String) : Value :=
  match Text.natOfText? s with
  | some n => if n < Value.natBound then .nat n else .text s
  | none => .text s

mutual

/-- Reshapes a value toward a schema. -/
def conform : Schema → Value → Value
  | .nat _, .text s => natOfText s
  | .int, .nat n => if n < 9223372036854775808 then .int (Int64.ofNat n) else .nat n
  | .float, .nat n => .float (.ofNat n)
  | .float, .int i => .float (.ofInt i.toInt)
  | .bytes _, .array items => bytesOfItems items
  | .array element, .array items => .array (items.map fun v => conform element v)
  | .optional inner, v => if v.isNull then .null else conform inner v
  | .record fields, .array items => .record (Fields.ofList (fieldsOfItems fields items))
  | .record fields, .record raw => .record (Fields.ofList (fieldsOfRecord fields raw))
  | .variant _, .text tag => .variant tag none
  | .variant cases, .record [(tag, payload)] => caseOf cases tag payload
  | _, v => v

/-- Pairs the fields of a schema with items in order. -/
def fieldsOfItems : List (String × Schema) → List Value → List (String × Value)
  | (name, schema) :: rest, v :: items =>
    if v.isNull && schema.isOptional then fieldsOfItems rest items
    else (name, conform schema v) :: fieldsOfItems rest items
  | _, _ => []

/-- Takes the fields of a schema out of a record. What the schema does not name is left behind. -/
def fieldsOfRecord : List (String × Schema) → Fields Value → List (String × Value)
  | [], _ => []
  | (name, schema) :: rest, raw =>
    match Fields.get? name raw with
    | some v =>
      if v.isNull && schema.isOptional then fieldsOfRecord rest (Fields.erase name raw)
      else (name, conform schema v) :: fieldsOfRecord rest (Fields.erase name raw)
    | none => fieldsOfRecord rest raw

/-- The tagged value that a single entry stands for. -/
def caseOf : List (String × Option Schema) → String → Value → Value
  | [], tag, payload => .variant tag (some payload)
  | (t, inner) :: rest, tag, payload =>
    if t = tag then
      match inner with
      | some schema => .variant tag (some (conform schema payload))
      | none => .variant tag (if payload.isNull then none else some payload)
    else caseOf rest tag payload

end

end Schema

end CertifiedCalls
