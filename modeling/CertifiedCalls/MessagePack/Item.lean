import CertifiedCalls.Decimal.Shortest
import CertifiedCalls.Bytes
import CertifiedCalls.Text.Quoted

/-! # MessagePack items
An **item** is one value of the MessagePack data model. Items are shown in a notation of their own,
in which texts are quoted and byte strings are lists of numbers. -/

namespace CertifiedCalls.MessagePack

/-- A MessagePack **item**. -/
inductive Item where
  /-- Nil. -/
  | nil
  /-- A truth value. -/
  | bool (b : Bool)
  /-- An integer from `-2 ^ 63` to `2 ^ 64 - 1`. -/
  | int (i : Int)
  /-- A single-precision number. -/
  | single (x : Binary32)
  /-- A double-precision number. -/
  | double (x : Binary64)
  /-- A string. -/
  | text (s : String)
  /-- A string whose octets are not UTF-8. -/
  | brokenText (octets : Bytes)
  /-- A byte string. -/
  | binary (octets : Bytes)
  /-- A sequence of items. -/
  | array (items : List Item)
  /-- A sequence of entries, kept in order and with their repetitions. -/
  | map (entries : List (Item × Item))
  /-- An application-defined byte string. -/
  | ext (type : Int) (octets : Bytes)
deriving Repr, Inhabited

namespace Item

/-- Whether an item is nil. -/
def isNil : Item → Bool
  | .nil => true
  | _ => false

/-- Texts in square brackets, separated by commas. -/
def bracketed (parts : List String) : String := "[" ++ String.intercalate ", " parts ++ "]"

/-- A byte string as a list of decimal numbers. -/
def showOctets (octets : Bytes) : String := bracketed (octets.map fun b => toString b.toNat)

mutual

/-- The text that shows an item. -/
def toText : Item → String
  | .nil => "nil"
  | .bool b => if b then "true" else "false"
  | .int i => toString i
  | .single x => x.toText
  | .double x => x.toText
  | .text s => Text.quoted s
  | .brokenText octets => showOctets octets
  | .binary octets => showOctets octets
  | .array items => bracketed (toTexts items)
  | .map entries => "\x7b" ++ String.intercalate ", " (entryTexts entries) ++ "\x7d"
  | .ext type octets => bracketed [toString type, showOctets octets]

/-- The texts that show a sequence of items. -/
def toTexts : List Item → List String
  | [] => []
  | item :: rest => item.toText :: toTexts rest

/-- The texts that show a sequence of entries. -/
def entryTexts : List (Item × Item) → List String
  | [] => []
  | (key, value) :: rest => (key.toText ++ ": " ++ value.toText) :: entryTexts rest

end

end Item

end CertifiedCalls.MessagePack
