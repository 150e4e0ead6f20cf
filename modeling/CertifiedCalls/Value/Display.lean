import CertifiedCalls.Value.Basic
import CertifiedCalls.Decimal.Shortest
import CertifiedCalls.Text.Quoted

/-! # Values in messages
The notation in which values appear in messages and events. Long byte strings are elided to their
length, so that no message shows a payload. -/

namespace CertifiedCalls.Value

/-- Byte strings longer than this are elided. -/
def shownOctets : Nat := 16

/-- How a byte string is shown. -/
def showBytes (octets : Bytes) : String :=
  if shownOctets < octets.length then "<" ++ toString octets.length ++ " bytes>"
  else "0x" ++ octets.toHex

mutual

/-- The text that shows a value. -/
def toText : Value → String
  | .null => "null"
  | .bool b => if b then "true" else "false"
  | .nat n => toString n
  | .int i => toString i.toInt
  | .float x => x.toText
  | .text s => Text.quoted s
  | .bytes octets => showBytes octets
  | .array items => "[" ++ String.intercalate ", " (itemTexts items) ++ "]"
  | .record fields => "\x7b" ++ String.intercalate ", " (fieldTexts fields) ++ "\x7d"
  | .variant tag none => tag
  | .variant tag (some payload) => tag ++ "(" ++ payload.toText ++ ")"

/-- The texts that show a sequence of values. -/
def itemTexts : List Value → List String
  | [] => []
  | v :: rest => v.toText :: itemTexts rest

/-- The texts that show fields. -/
def fieldTexts : List (String × Value) → List String
  | [] => []
  | (name, v) :: rest => (name ++ ": " ++ v.toText) :: fieldTexts rest

end

end CertifiedCalls.Value
