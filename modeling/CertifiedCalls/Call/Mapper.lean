import CertifiedCalls.Call.Retry
import CertifiedCalls.Value.Basic

/-! # Mappers
The mappers that take a decoded reply as it is, that take the payload of one tag out of it, and that
fail a number of times first. -/

namespace CertifiedCalls.Mapper

/-- Takes a reply as it is. -/
def identity {α : Type} : Mapper α α := fun _ v => .ok v

/-- The payload that a value carries under a tag; nothing counts as null. -/
def payloadOf (tag : String) : Value → Except CallFailure Value
  | .variant t payload =>
    if t = tag then .ok (payload.getD .null) else .error (.responseMismatch "$" tag t)
  | _ => .error (.responseMismatch "$" "variant" "non-variant")

/-- Takes the payload that a reply carries under a tag. -/
def payload (tag : String) : Mapper Value Value := .pure (payloadOf tag)

/-- Fails so many times before it maps anything. -/
def failing {α β : Type} (times : Nat) (cause : CallFailure) (mapper : Mapper α β) : Mapper α β :=
  fun mapped v => if mapped < times then .error cause else mapper (mapped - times) v

end CertifiedCalls.Mapper
