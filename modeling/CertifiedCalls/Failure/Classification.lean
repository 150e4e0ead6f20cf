import CertifiedCalls.Failure
import CertifiedCalls.Text.Numeral
import CertifiedCalls.Text.Phrase

/-! # Classifying transport failures
The transport says what went wrong in free text. **Classification** looks for known phrases, in a
fixed order: an invalid destination, an invalid delegation, the sizes of a payload that is too large
and a replica that is behind. Only then does the status count, the transport's own or one that a
line of the message states. -/

namespace CertifiedCalls

open Text

namespace TransportFailure

/-- The phrases that say that there is no such destination. -/
def unreachable : Phrase := anyOf [
  inTurn [word "destination", gap, word "invalid"],
  inTurn [word "canister", blanksOf, token, blanksOf, word "not", blanksOf, word "found"]]

/-- The phrases that say that a delegation is not valid. -/
def badDelegation : Phrase := anyOf [
  inTurn [word "invalid", blanksOf, word "delegation"],
  inTurn [word "delegation", blanksOf, maybe (inTurn [word "has", blanksOf]), word "expired"]]

/-- The phrases after which the size of a payload and its limit are stated. -/
def payloadSize : Phrase := inTurn [
  anyOf [word "payload", word "response", word "reply"], gap,
  anyOf [word "size", inTurn [word "too", blanksOf, word "large"]]]

/-- The phrases that say that a replica is behind. -/
def lagging : Phrase := anyOf [
  inTurn [word "replica", blanksOf, maybe (inTurn [word "is", blanksOf]), word "not", blanksOf,
    word "up", blanksOf, word "to", blanksOf, word "date"],
  inTurn [word "certificate", blanksOf, word "is", blanksOf, word "stale"],
  inTurn [word "replica", blanksOf, word "lagging"]]

/-- The phrase after which a line states a status. -/
def statusLine : Phrase := inTurn [
  gap, anyOf [inTurn [word "http", blanksOf, word "status", blanksOf, word "code"], word "code"],
  gap, mark ':', gap]

/-- A number of 64 bits in ASCII digits. -/
def sizeOf? (digits : List Char) : Option Nat :=
  (natOfDigits? digits).filter (· < 18446744073709551616)

/-- The size of a payload and its limit, where the message states both. -/
def payloadSizes (message : String) : Option (Nat × Nat) := do
  let (first, second) ← findIn (fun cs => (payloadSize cs).bind twoNumerals) message.toList
  return (← sizeOf? first, ← sizeOf? second)

/-- The status that a line of a message states. -/
def statedStatus (message : String) : Option Nat :=
  (findAtLine (fun cs => (statusLine cs).bind (numeral 3)) message.toList).bind natOfDigits?

/-- The status of a failure, the transport's own first. -/
def statusOf (f : TransportFailure) : Option Nat :=
  f.status.orElse fun _ => statedStatus f.message

/-- The statuses that say that the caller is not authorized. -/
def isAuthStatus (code : Nat) : Bool := code == 401 || code == 403

/-- The cause that a status stands for. -/
def causeOfStatus (message : String) (status : Option Nat) : CallFailure :=
  match status with
  | some code =>
    if isAuthStatus code then .authorizationFailed (.status code) message
    else .transient code message
  | none => .transientOf message

/-- **Classifies** a transport failure. -/
def classify (f : TransportFailure) : CallFailure :=
  if occurs unreachable f.message then .destinationUnreachable f.message
  else if occurs badDelegation f.message then .authorizationFailed .invalidDelegation f.message
  else
    match payloadSizes f.message with
    | some (size, limit) => .responsePayloadTooLarge size limit
    | none =>
      if occurs lagging f.message then .replicaLagging f.message
      else causeOfStatus f.message f.statusOf

end TransportFailure

end CertifiedCalls
