import CertifiedCalls.MessagePack.Item
import CertifiedCalls.Schema.Basic
import CertifiedCalls.Value.Basic

/-! # Laying out values
The item that carries a value. Its schema says in which order the fields of a record go; its
**layout** says whether they go by position or by name. Absent optional fields cost nothing: by
name they have no entry, by position they are nil, and not even that at the end. -/

namespace CertifiedCalls

open MessagePack (Item)

/-- How records are **laid out**. -/
inductive Layout where
  /-- A sequence of the fields in the schema's order. -/
  | positional
  /-- A map from names to fields. -/
  | named
deriving DecidableEq, Repr

/-- The name of a layout. -/
def Layout.name : Layout → String
  | .positional => "positional"
  | .named => "named"

/-- The layout of a name. -/
def Layout.ofName? (name : String) : Option Layout :=
  [positional, named].find? fun l => l.name == name

namespace Value

/-- The item of a natural number: its decimal text when it has more than 64 bits. -/
def natItem (n : Nat) : Item :=
  if n < 18446744073709551616 then .int n else .text (toString n)

mutual

/-- The item of a value whose schema is not known. Records go by name. -/
def toItem : Value → Item
  | .null => .nil
  | .bool b => .bool b
  | .nat n => natItem n
  | .int i => .int i.toInt
  | .float x => .double x
  | .text s => .text s
  | .bytes octets => .binary octets
  | .array items => .array (toItems items)
  | .record fields => .map (toEntries fields)
  | .variant tag none => .text tag
  | .variant tag (some payload) => .map [(.text tag, payload.toItem)]

/-- The items of values. -/
def toItems : List Value → List Item
  | [] => []
  | v :: rest => v.toItem :: toItems rest

/-- The entries of fields. -/
def toEntries : List (String × Value) → List (Item × Item)
  | [] => []
  | (name, v) :: rest => (.text name, v.toItem) :: toEntries rest

end

end Value

namespace Schema

mutual

/-- The item of a value laid out by a schema. Where the value does not have the shape of the
schema, the schema is not used. -/
def toItem (layout : Layout) : Schema → Value → Item
  | .optional inner, v => if v.isNull then .nil else toItem layout inner v
  | .array element, .array items => .array (items.map fun v => toItem layout element v)
  | .record fields, .record present =>
    match layout with
    | .positional => .array (positionalItems layout fields present)
    | .named => .map (namedEntries layout fields present)
  | .variant _, .variant tag none => .text tag
  | .variant cases, .variant tag (some payload) =>
    .map [(.text tag, payloadItem layout cases tag payload)]
  | _, v => v.toItem

/-- The items of the fields of a record in the schema's order, without optional fields at the end
that are nil. -/
def positionalItems (layout : Layout) : List (String × Schema) → Fields Value → List Item
  | [], _ => []
  | (name, schema) :: rest, present =>
    let item := match Fields.get? name present with
      | some v => toItem layout schema v
      | none => .nil
    let items := positionalItems layout rest present
    if items.isEmpty && (item.isNil && schema.isOptional) then [] else item :: items

/-- The entries of the fields of a record in the schema's order, without optional fields that carry
nothing. -/
def namedEntries (layout : Layout) : List (String × Schema) → Fields Value → List (Item × Item)
  | [], _ => []
  | (name, schema) :: rest, present =>
    match Fields.get? name present with
    | some v =>
      if v.isNull && schema.isOptional then namedEntries layout rest present
      else (.text name, toItem layout schema v) :: namedEntries layout rest present
    | none => namedEntries layout rest present

/-- The item of a payload laid out by the first case of its tag. -/
def payloadItem (layout : Layout) : List (String × Option Schema) → String → Value → Item
  | [], _, payload => payload.toItem
  | (t, inner) :: rest, tag, payload =>
    if t = tag then
      match inner with
      | some schema => toItem layout schema payload
      | none => payload.toItem
    else payloadItem layout rest tag payload

end

end Schema

end CertifiedCalls
