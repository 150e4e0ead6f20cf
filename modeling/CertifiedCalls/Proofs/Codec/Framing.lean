import CertifiedCalls.Proofs.Codec.RoundTrip
import CertifiedCalls.Proofs.MessagePack.Reading

/-! # Messages are framed
An item ends where its octets say that it ends. So nothing can be cut off a message or put after it
without being noticed, whatever schema the message is decoded by (`decode_framed`). -/

namespace CertifiedCalls

open MessagePack (DecodeError Item)

namespace Schema

/-- A message that is **cut short** is no message. -/
theorem decode_of_cut {item : Item} {front rest : Bytes} (read : Item.read (front ++ rest) = .ok (item, []))
    (missing : rest ≠ []) (schema : Schema) :
    ∃ cause, schema.decode front = .error (.malformed front cause) := by
  cases cut : Item.read front with
  | error cause => exact ⟨cause, by rw [decode, cut]⟩
  | ok found =>
    -- Had the front been read, the rest would be left over from the whole.
    obtain ⟨item', left⟩ := found
    rw [Item.read_append cut rest] at read
    have nothing : left ++ rest = [] := (Prod.mk.inj (Except.ok.inj read)).2
    exact absurd (List.append_eq_nil_iff.mp nothing).2 missing

/-- Octets **after** a message are counted. -/
theorem decode_of_surplus {item : Item} {message more : Bytes}
    (read : Item.read message = .ok (item, [])) (surplus : more ≠ []) (schema : Schema) :
    schema.decode (message ++ more) = .error (.trailing (message ++ more) more.length) := by
  have some_left : ¬ more.isEmpty = true := fun empty => surplus (List.isEmpty_iff.mp empty)
  rw [decode, Item.read_append read more]
  simp only [List.nil_append]
  rw [if_neg some_left]

/-- **Messages are framed exactly.** Where a message is decoded by some schema, every proper front of
it is malformed and whatever is put after it is counted, by any schema, and the failure shows all
octets. -/
theorem decode_framed {schema : Schema} {message : Bytes} {v : Value}
    (decoded : schema.decode message = .ok v) (other : Schema) :
    (∀ front rest, message = front ++ rest → rest ≠ [] →
      ∃ fault cause, other.decode front = .error fault ∧ fault.violation =
        ⟨.response, "$", "MessagePack value", "malformed bytes (" ++ DecodeError.message cause ++ ")",
          some front.toHex⟩) ∧
    (∀ more, more ≠ [] → ∃ fault, other.decode (message ++ more) = .error fault ∧ fault.violation =
        ⟨.response, "$", "single MessagePack value", toString more.length ++ " trailing bytes",
          some (message ++ more).toHex⟩) := by
  obtain ⟨item, read, -, -⟩ := decode_eq_ok_iff.mp decoded
  constructor
  · rintro front rest rfl missing
    obtain ⟨cause, malformed⟩ := decode_of_cut read missing other
    exact ⟨_, cause, malformed, rfl⟩
  · intro more surplus
    exact ⟨_, decode_of_surplus read surplus other, rfl⟩

/-- A sequence of a number and a text is decoded; without its last octet, or with two octets more, it
is not, whatever is wanted. -/
theorem decode_framed_sequence :
    Schema.any.decode [0x92, 0x07, 0xA1, 0x61] = .ok (.array [.nat 7, .text "a"]) ∧
      (∃ fault cause, Schema.bool.decode [0x92, 0x07, 0xA1] = .error fault ∧ fault.violation =
        ⟨.response, "$", "MessagePack value", "malformed bytes (" ++ DecodeError.message cause ++ ")",
          some "9207a1"⟩) ∧
      (∃ fault, Schema.any.decode [0x92, 0x07, 0xA1, 0x61, 0xC0, 0xC0] = .error fault ∧
        fault.violation = ⟨.response, "$", "single MessagePack value", "2 trailing bytes",
          some "9207a161c0c0"⟩) := by
  have decoded : Schema.any.decode [0x92, 0x07, 0xA1, 0x61] = .ok (.array [.nat 7, .text "a"]) := by
    cbv
  have cut : Bytes.toHex [0x92, 0x07, 0xA1] = "9207a1" := by cbv
  have long : Bytes.toHex [0x92, 0x07, 0xA1, 0x61, 0xC0, 0xC0] = "9207a161c0c0" := by cbv
  rw [← cut, ← long]
  exact ⟨decoded, (decode_framed decoded .bool).1 [0x92, 0x07, 0xA1] [0x61] rfl (by decide),
    (decode_framed decoded .any).2 [0xC0, 0xC0] (by decide)⟩

end Schema

end CertifiedCalls
