import CertifiedCalls.Canister.Id
import CertifiedCalls.Canister.Request

/-! # Failures of calls
A raw **transport failure** is a message and perhaps a status. A **call failure** is its cause in a
closed list of kinds, and the kind alone says whether the call may be tried again. -/

namespace CertifiedCalls

/-- A failure as the transport reports it. -/
structure TransportFailure where
  /-- The message. -/
  message : String
  /-- The status, where the transport has one. -/
  status : Option Nat
deriving DecidableEq, Repr

/-- A transport failure without a status. -/
def TransportFailure.ofMessage (message : String) : TransportFailure := ⟨message, none⟩

/-- Why a caller was not authorized. -/
inductive AuthReason where
  /-- The transport's status says so. -/
  | status (code : Nat)
  /-- The delegation of the caller's identity is not valid. -/
  | invalidDelegation
deriving DecidableEq, Repr

/-- The text of a reason. -/
def AuthReason.toText : AuthReason → String
  | .status code => "status " ++ toString code
  | .invalidDelegation => "invalid delegation"

/-- Which way a message was going. -/
inductive Direction where
  /-- To the canister. -/
  | request
  /-- From the canister. -/
  | response
deriving DecidableEq, Repr

/-- The text of a direction. -/
def Direction.toText : Direction → String
  | .request => "Request"
  | .response => "Response"

/-- A message that its schema does not accept. -/
structure SchemaViolation where
  /-- Which way it was going. -/
  direction : Direction
  /-- Where in the message the fault is. -/
  path : String
  /-- What was wanted there. -/
  expected : String
  /-- What stood there. -/
  found : String
  /-- The message itself, where it came from outside. -/
  raw : Option String
deriving DecidableEq, Repr

/-- The wording of a violation. -/
def SchemaViolation.message (v : SchemaViolation) : String :=
  v.direction.toText ++ " schema violation at " ++ v.path ++ ": expected " ++ v.expected
    ++ ", found " ++ v.found

/-- A rejection together with the call it answers. -/
structure RejectDetails where
  /-- The target of the call. -/
  target : CanisterId
  /-- The method called. -/
  method : String
  /-- The request, if the call is an update. -/
  requestId : Option RequestId
  /-- The rejection. -/
  rejection : Rejection
  /-- The answer as it is shown to developers. -/
  rawResponse : String
deriving DecidableEq

/-- The wording of a rejected call. -/
def RejectDetails.message (d : RejectDetails) : String :=
  d.target.toText ++ "." ++ d.method ++ " rejected with " ++ d.rejection.code.toText ++ ": "
    ++ d.rejection.message
    ++ match d.rejection.errorCode with
      | some code => " [" ++ code ++ "]"
      | none => ""

/-- The cause of a failed call. -/
inductive CallFailure where
  /-- There is no such destination. -/
  | destinationUnreachable (message : String)
  /-- The caller may not do this. -/
  | authorizationFailed (reason : AuthReason) (message : String)
  /-- The response does not fit into what the platform carries. -/
  | responsePayloadTooLarge (size limit : Nat)
  /-- The replica is behind. -/
  | replicaLagging (message : String)
  /-- The other side said no. -/
  | remoteRejected (details : RejectDetails)
  /-- A message broke its schema. -/
  | schemaViolation (violation : SchemaViolation)
  /-- The request was not certified in time. -/
  | timedOut (requestId : RequestId) (elapsedMs : Nat)
  /-- Anything else. -/
  | transient (code : Nat) (message : String)
deriving DecidableEq

/-- The **kinds** of call failures. -/
inductive FailureKind where
  /-- No such destination. -/
  | destinationUnreachable
  /-- Not authorized. -/
  | authorizationFailed
  /-- A response too large. -/
  | responsePayloadTooLarge
  /-- A replica behind. -/
  | replicaLagging
  /-- A rejection. -/
  | remoteRejected
  /-- A broken schema. -/
  | schemaViolation
  /-- No certificate in time. -/
  | timedOut
  /-- Anything else. -/
  | transient
deriving DecidableEq, Repr

namespace FailureKind

/-- The name of a kind. -/
def name : FailureKind → String
  | .destinationUnreachable => "DestinationUnreachable"
  | .authorizationFailed => "AuthorizationFailed"
  | .responsePayloadTooLarge => "ResponsePayloadTooLarge"
  | .replicaLagging => "ReplicaLagging"
  | .remoteRejected => "RemoteRejected"
  | .schemaViolation => "SchemaViolation"
  | .timedOut => "TimedOut"
  | .transient => "Transient"

/-- Whether a call that failed this way may be tried again. -/
def isRetryable : FailureKind → Bool
  | .replicaLagging => true
  | .transient => true
  | _ => false

end FailureKind

namespace CallFailure

/-- The kind of a failure. -/
def kind : CallFailure → FailureKind
  | .destinationUnreachable _ => .destinationUnreachable
  | .authorizationFailed _ _ => .authorizationFailed
  | .responsePayloadTooLarge _ _ => .responsePayloadTooLarge
  | .replicaLagging _ => .replicaLagging
  | .remoteRejected _ => .remoteRejected
  | .schemaViolation _ => .schemaViolation
  | .timedOut _ _ => .timedOut
  | .transient _ _ => .transient

/-- Whether the call may be tried again. -/
def isRetryable (f : CallFailure) : Bool := f.kind.isRetryable

/-- The wording of a failure. -/
def message : CallFailure → String
  | .destinationUnreachable m => "Destination unreachable: " ++ m
  | .authorizationFailed reason m => "Authorization failed (" ++ reason.toText ++ "): " ++ m
  | .responsePayloadTooLarge size limit =>
    "Response payload too large: " ++ toString size ++ " bytes exceeds limit of " ++ toString limit
  | .replicaLagging m => "Replica lagging: " ++ m
  | .remoteRejected details => details.message
  | .schemaViolation violation => violation.message
  | .timedOut requestId elapsedMs =>
    "Request " ++ requestId.toText ++ " not certified after " ++ toString elapsedMs ++ "ms"
  | .transient code m => "Transient failure (code " ++ toString code ++ "): " ++ m

/-- The code of transient failures that have none of their own. -/
def defaultCode : Nat := 500

/-- A transient failure with the default code. -/
def transientOf (message : String) : CallFailure := .transient defaultCode message

/-- A reply that does not have the shape its reader wants. -/
def responseMismatch (path expected found : String) : CallFailure :=
  .schemaViolation ⟨.response, path, expected, found, none⟩

end CallFailure

/-- A **failed call**: the cause and what was called. -/
structure FailedCall where
  /-- The target. -/
  target : CanisterId
  /-- The method. -/
  method : String
  /-- The arguments as they are shown. -/
  args : String
  /-- The cause. -/
  cause : CallFailure
deriving DecidableEq

/-- The wording of a failed call. -/
def FailedCall.message (f : FailedCall) : String :=
  f.method ++ " on " ++ f.target.toText ++ " failed: " ++ f.cause.message

end CertifiedCalls
