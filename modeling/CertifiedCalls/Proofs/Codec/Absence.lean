import Mathlib
import CertifiedCalls.Proofs.Codec.Places
import CertifiedCalls.Proofs.Codec.RoundTrip

/-! # Absence in replies
A reply says nothing at a place when it was sent nothing for it: whatever else was sent for the place
is there, and a null stands only where something void was sent (`decode_absent`). This takes schemas
whose fields have distinct names, since a name must tell one place, and of several entries with one key
the last is what was sent. A string that is not UTF-8 is void like nil, so it goes unreported where a
schema takes nothing (`decode_brokenText`). -/

namespace CertifiedCalls.Schema

open MessagePack (Item)

namespace Reads

variable {schema : Schema} {item : Item} {v : Value}

/-- What a value holds at a place is read from what was sent for it. -/
theorem at? (h : schema.Reads item v) {path : List PathStep} {w : Value}
    (found : v.at? path = some w) :
    ∃ item' schema', schema.sent? path item = some item' ∧ Reads schema' item' w := by
  induction path generalizing schema item v with
  | nil =>
    obtain rfl := Option.some.inj found
    exact ⟨item, schema, rfl, h⟩
  | cons step path ih =>
    obtain ⟨u, here, later⟩ := Option.bind_eq_some_iff.mp found
    obtain ⟨part, sent, read⟩ := h.part here
    obtain ⟨item', schema', sent', read'⟩ := ih read later
    refine ⟨item', schema', ?_, read'⟩
    rw [sent?, sent]
    exact sent'

/-- What was sent for a place and is not void is there, and it is not null. -/
theorem sent? (h : schema.Reads item v) {path : List PathStep} {item' : Item}
    (sent : schema.sent? path item = some item') (solid : item'.isVoid = false) :
    ∃ w, v.at? path = some w ∧ w.isNull = false := by
  induction path generalizing schema item v with
  | nil =>
    obtain rfl := Option.some.inj sent
    exact ⟨v, rfl, h.isNull_eq.trans solid⟩
  | cons step path ih =>
    obtain ⟨part, here, later⟩ := Option.bind_eq_some_iff.mp sent
    -- Nothing is sent below what is void, so no step on the way is.
    have part_solid : part.2.isVoid = false := by
      cases void : part.2.isVoid with
      | false => rfl
      | true =>
        cases path with
        | nil =>
          obtain rfl := Option.some.inj later
          exact void.symm.trans solid
        | cons next path =>
          rw [Schema.sent?, part?_of_isVoid next _ void] at later
          cases later
    obtain ⟨u, there⟩ := h.there here part_solid
    obtain ⟨part', here', read⟩ := h.part there
    obtain rfl := Option.some.inj (here.symm.trans here')
    obtain ⟨w, found, solid⟩ := ih read later
    refine ⟨w, ?_, solid⟩
    rw [Value.at?, there]
    exact found

end Reads

/-- What is decoded is read from the one item of the octets. -/
theorem reads_of_decode {schema : Schema} (distinct : schema.Distinct) {octets : Bytes} {v : Value}
    (decoded : schema.decode octets = .ok v) :
    ∃ item, Item.read octets = .ok (item, []) ∧ schema.Reads item v := by
  obtain ⟨item, read, conformed, accepted⟩ := decode_eq_ok_iff.mp decoded
  exact ⟨item, read, distinct, conformed, accepted⟩

/-- **A reply loses nothing but what is void**, when the fields of each record have distinct names: a
null stands only where something void was sent, and whatever else was sent for a place, in the last
entry of its key, is there. What cannot be represented is reported as a violation of the reply. -/
theorem decode_absent {schema : Schema} (distinct : schema.Distinct) (octets : Bytes) :
    (∀ v, schema.decode octets = .ok v → ∃ item, Item.read octets = .ok (item, []) ∧
      (∀ path, v.at? path = some .null →
        ∃ sent, schema.sent? path item = some sent ∧ sent.isVoid = true) ∧
      ∀ path sent, schema.sent? path item = some sent → sent.isVoid = false →
        ∃ w, v.at? path = some w ∧ w.isNull = false) ∧
    ∀ fault, schema.decode octets = .error fault → fault.violation.direction = .response := by
  constructor
  · intro v decoded
    obtain ⟨item, read, reads⟩ := reads_of_decode distinct decoded
    refine ⟨item, read, fun path null => ?_, fun path sent => reads.sent?⟩
    obtain ⟨sent, _, found, reads'⟩ := reads.at? null
    exact ⟨sent, found, reads'.isNull_eq.symm⟩
  · intro fault _
    cases fault <;> rfl

/-- A record by position whose first field was sent nil, and whose second a sequence with a nil. -/
theorem decode_absent_record :
    let schema : Schema := .record [("note", .optional .text), ("rest", .any)]
    let octets : Bytes := [0x92, 0xC0, 0x92, 0xC0, 0x05]
    ∃ v item, schema.decode octets = .ok v ∧ Item.read octets = .ok (item, []) ∧
      v.at? [.field "rest", .index 0] = some .null ∧
      (∃ sent, schema.sent? [.field "rest", .index 0] item = some sent ∧ sent.isVoid = true) ∧
      ∃ w, v.at? [.field "rest", .index 1] = some w ∧ w.isNull = false := by
  intro schema octets
  have distinct : schema.Distinct := ⟨by decide, trivial, trivial, trivial⟩
  have decoded : schema.decode octets = .ok (.record [("rest", .array [.null, .nat 5])]) := by cbv
  have read : Item.read octets = .ok (.array [.nil, .array [.nil, .int 5]], []) := by cbv
  obtain ⟨item, read', nulls, kept⟩ := (decode_absent distinct octets).1 _ decoded
  obtain rfl : item = .array [.nil, .array [.nil, .int 5]] :=
    (Prod.mk.inj (Except.ok.inj (read'.symm.trans read))).1
  exact ⟨_, _, decoded, read, rfl, nulls [.field "rest", .index 0] rfl,
    kept [.field "rest", .index 1] (.int 5) rfl rfl⟩

/-- **A string that is not UTF-8 goes unreported** where a schema takes nothing: a peer that sends one
for an optional text is understood to have sent none. -/
theorem decode_brokenText :
    Item.read [0xA1, 0xFF] = .ok (.brokenText [0xFF], []) ∧
      (Schema.optional .text).decode [0xA1, 0xFF] = .ok .null := by
  constructor <;> cbv

end CertifiedCalls.Schema
