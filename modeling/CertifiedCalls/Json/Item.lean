import CertifiedCalls.Json.Numeral

/-! # JSON items
An **item** is one value of the JSON data model. Members of objects are kept in order and with their
repetitions. A string whose escapes leave half of a surrogate pair alone has no text. -/

namespace CertifiedCalls.Json

/-- A JSON **item**. -/
inductive Item where
  /-- Null. -/
  | null
  /-- A truth value. -/
  | bool (b : Bool)
  /-- A number. -/
  | number (n : Numeral)
  /-- A string, with its text if it has one. -/
  | string (text : Option String)
  /-- A sequence of items. -/
  | array (items : List Item)
  /-- A sequence of members, each with its name if that has a text. -/
  | object (members : List (Option String × Item))
deriving Repr, Inhabited

namespace Item

/-- The natural number below the bound that an item names. -/
def nat? (bound : Nat) : Item → Option Nat
  | .number n => n.nat? bound
  | _ => none

/-- The double that an item names. -/
def double? : Item → Option Binary64
  | .number n => n.double?
  | _ => none

/-- The text that an item names. -/
def text? : Item → Option String
  | .string text => text
  | _ => none

/-- What the elements of an array name. -/
def list? {α : Type} (read : Item → Option α) : Item → Option (List α)
  | .array items => items.mapM read
  | _ => none

/-- What an item names if it is not null. -/
def nullable? {α : Type} (read : Item → Option α) : Item → Option (Option α)
  | .null => some none
  | x => (read x).map some

/-- The members of an object under one of its names, or nothing if there are several. -/
def member? (members : List (Option String × Item)) (name : String) : Option (Option Item) :=
  match members.filter fun m => m.1 == some name with
  | [] => some none
  | [m] => some (some m.2)
  | _ => none

/-- The items of a record with the given fields, where they are present: those of an object by name,
those of an array by position. Other members of an object are passed over, but further elements of
an array make it no record, and so do a repeated field and a member whose name has no text. -/
def fields? (names : List String) : Item → Option (List (Option Item))
  | .object members =>
    if members.all fun m => m.1.isSome then names.mapM (member? members) else none
  | .array items =>
    if items.length ≤ names.length then
      some (items.map some ++ List.replicate (names.length - items.length) none)
    else none
  | _ => none

end Item

end CertifiedCalls.Json
