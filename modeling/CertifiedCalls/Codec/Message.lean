import CertifiedCalls.Codec.Conform
import CertifiedCalls.Codec.Layout
import CertifiedCalls.Event
import CertifiedCalls.Failure
import CertifiedCalls.MessagePack.Format
import CertifiedCalls.Schema.Check

/-! # Messages
A **message** is the octets of one value. A request is checked before it is written, and a reply
after it has been read and conformed. -/

namespace CertifiedCalls

open MessagePack (DecodeError Item)

/-- Why octets are no reply of a schema. -/
inductive ReplyFault where
  /-- They do not start with an item. -/
  | malformed (octets : Bytes) (cause : DecodeError)
  /-- So many octets follow the item. -/
  | trailing (octets : Bytes) (count : Nat)
  /-- The schema does not accept what the item stands for. -/
  | mismatch (item : Item) (fault : Mismatch)

namespace ReplyFault

/-- The violation that the caller sees. -/
def violation : ReplyFault → SchemaViolation
  | .malformed octets cause =>
    ⟨.response, pathText [], "MessagePack value", "malformed bytes (" ++ cause.message ++ ")",
      some octets.toHex⟩
  | .trailing octets count =>
    ⟨.response, pathText [], "single MessagePack value", toString count ++ " trailing bytes",
      some octets.toHex⟩
  | .mismatch item fault =>
    ⟨.response, pathText fault.path, fault.expectedText, fault.foundText, some item.toText⟩

/-- The event that records the fault. -/
def event : ReplyFault → Event
  | .malformed octets cause =>
    ⟨.error, "[oc-01] Undecodable response (" ++ toString octets.length ++ " bytes): "
      ++ cause.message, []⟩
  | .trailing _ count =>
    ⟨.error, "[oc-01] Response has " ++ toString count
      ++ " trailing bytes after the MessagePack value", []⟩
  | .mismatch item fault =>
    ⟨.error, "[oc-01] Response failed schema validation",
      [("path", pathText fault.path), ("expected", fault.expectedText),
        ("found", fault.foundText), ("raw", item.toText)]⟩

/-- The failure that the caller sees. -/
def failure (fault : ReplyFault) : CallFailure := .schemaViolation fault.violation

end ReplyFault

/-- The failure of a request that its schema does not accept. -/
def Mismatch.requestFailure (m : Mismatch) : CallFailure :=
  .schemaViolation ⟨.request, pathText m.path, m.expectedText, m.foundText, none⟩

namespace Schema

/-- The octets of a request, if the schema accepts it. -/
def encode (layout : Layout) (schema : Schema) (v : Value) : Except Mismatch Bytes :=
  match schema.check v with
  | some m => .error m
  | none => .ok (schema.toItem layout v).write

/-- The value of a reply, if the octets hold exactly one item and the schema accepts it. -/
def decode (schema : Schema) (bs : Bytes) : Except ReplyFault Value :=
  match Item.read bs with
  | .error cause => .error (.malformed bs cause)
  | .ok (item, rest) =>
    if rest.isEmpty then
      let v := schema.conform (Value.ofItem item)
      match schema.check v with
      | some m => .error (.mismatch item m)
      | none => .ok v
    else .error (.trailing bs rest.length)

end Schema

end CertifiedCalls
