import CertifiedCalls.Canister.Request
import CertifiedCalls.Certificate.HashTree
import CertifiedCalls.Certificate.Leb128
import CertifiedCalls.MessagePack.Item

/-! # Request statuses
A certificate says of a request how far it has come. Its **status** stands under the request's
identifier, together with the reply or the rejection once the request has ended. A status that has
been pruned, or that is not there yet, is unknown. -/

namespace CertifiedCalls

/-- The **status** of a request. -/
inductive RequestStatus where
  /-- Nothing is known of the request. -/
  | unknown
  /-- The platform has received it. -/
  | received
  /-- The canister is at work on it. -/
  | processing
  /-- It ended with a reply. -/
  | replied (reply : Bytes)
  /-- It ended with a rejection. -/
  | rejected (rejection : Rejection)
  /-- It ended, and what with is no longer available. -/
  | done
deriving DecidableEq, Repr

/-- Whether a status is final. -/
def RequestStatus.isTerminal : RequestStatus → Bool
  | .replied _ => true
  | .rejected _ => true
  | .done => true
  | _ => false

/-- A status as it is shown to developers. -/
def RequestStatus.debugText : RequestStatus → String
  | .unknown => "Unknown"
  | .received => "Received"
  | .processing => "Processing"
  | .replied reply => "Replied(" ++ MessagePack.Item.showOctets reply ++ ")"
  | .rejected rejection => "Rejected(" ++ rejection.debugText ++ ")"
  | .done => "Done"

/-- The **fields** of a request's status. -/
inductive StatusField where
  /-- The name of the status. -/
  | status
  /-- The reply. -/
  | reply
  /-- The number of the reject code. -/
  | rejectCode
  /-- The message of the rejection. -/
  | rejectMessage
  /-- The more specific code of the rejection. -/
  | errorCode
deriving DecidableEq, Repr

/-- The label of a field. -/
def StatusField.label : StatusField → String
  | .status => "status"
  | .reply => "reply"
  | .rejectCode => "reject_code"
  | .rejectMessage => "reject_message"
  | .errorCode => "error_code"

/-- Why a certificate has no readable status. -/
inductive StatusFault where
  /-- The status is not a leaf. -/
  | statusNotLeaf
  /-- A field is not text. -/
  | notText (field : StatusField)
  /-- There is a reply, but it is missing. -/
  | replyMissing
  /-- The reject code is not a number. -/
  | malformedRejectCode
  /-- The reject code is missing. -/
  | rejectCodeMissing
  /-- The message of the rejection is missing. -/
  | rejectMessageMissing
  /-- No status has this name. -/
  | unknownStatus (name : String)
deriving DecidableEq, Repr

/-- The wording of a fault. -/
def StatusFault.message : StatusFault → String
  | .statusNotLeaf => "certificate status path is not a leaf"
  | .notText field => "certificate field " ++ field.label ++ " is not UTF-8"
  | .replyMissing => "certificate reports replied without a reply"
  | .malformedRejectCode => "malformed reject_code in certificate"
  | .rejectCodeMissing => "certificate missing reject_code"
  | .rejectMessageMissing => "certificate missing reject_message"
  | .unknownStatus name => "unknown request status in certificate: " ++ name

/-- The label under which all statuses stand. -/
def statusRoot : Bytes := Bytes.ofText "request_status"

/-- The path of a field of a request's status. -/
def statusPath (id : RequestId) (field : StatusField) : List Bytes :=
  [statusRoot, id.bytes, Bytes.ofText field.label]

namespace HashTree

/-- Looks up a field of a request's status. -/
def statusField (t : HashTree) (id : RequestId) (field : StatusField) : Lookup :=
  t.lookup (statusPath id field)

/-- The text of a field's octets. -/
def fieldText (field : StatusField) (octets : Bytes) : Except StatusFault String :=
  match octets.toText? with
  | some s => .ok s
  | none => .error (.notText field)

/-- The reply of a request. -/
def requestReply (t : HashTree) (id : RequestId) : Except StatusFault Bytes :=
  match t.statusField id .reply with
  | .found reply => .ok reply
  | _ => .error .replyMissing

/-- The rejection of a request. -/
def requestRejection (t : HashTree) (id : RequestId) : Except StatusFault Rejection := do
  let code ← match t.statusField id .rejectCode with
    | .found octets => (Leb128.read octets).elim (.error .malformedRejectCode) .ok
    | _ => .error .rejectCodeMissing
  let message ← match t.statusField id .rejectMessage with
    | .found octets => fieldText .rejectMessage octets
    | _ => .error .rejectMessageMissing
  let errorCode ← match t.statusField id .errorCode with
    | .found octets => some <$> fieldText .errorCode octets
    | _ => .ok none
  return ⟨.ofCode code, message, errorCode⟩

/-- The status that a name stands for. -/
def statusNamed (t : HashTree) (id : RequestId) (name : String) :
    Except StatusFault RequestStatus :=
  if name = "received" then .ok .received
  else if name = "processing" then .ok .processing
  else if name = "done" then .ok .done
  else if name = "replied" then (t.requestReply id).map .replied
  else if name = "rejected" then (t.requestRejection id).map .rejected
  else .error (.unknownStatus name)

/-- The **status of a request** in a certificate. -/
def requestStatus (t : HashTree) (id : RequestId) : Except StatusFault RequestStatus :=
  match t.statusField id .status with
  | .found octets => (fieldText .status octets).bind (t.statusNamed id)
  | .error => .error .statusNotLeaf
  | _ => .ok .unknown

end HashTree

end CertifiedCalls
