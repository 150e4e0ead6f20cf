import CertifiedCalls.Codec.Message
import CertifiedCalls.Config.Agent
import CertifiedCalls.Failure.Classifier
import CertifiedCalls.Workflow.Basic
import CertifiedCalls.Value.Display

/-! # Calls
A **call** names a method of a canister, its arguments, and the schemas of the request and of the
reply. A call that fails is reported together with what was called. -/

namespace CertifiedCalls

/-- A **call**. -/
structure Call where
  /-- The canister. -/
  target : CanisterId
  /-- The method. -/
  method : String
  /-- The arguments. -/
  args : Value
  /-- What the arguments must look like. -/
  request : Schema
  /-- What a reply must look like. -/
  response : Schema

/-- An **agent**, which makes calls. -/
structure Agent where
  /-- Its settings. -/
  config : AgentConfig
  /-- How it classifies transport failures. -/
  classifier : Classifier
  /-- How often it reads the status of one request at most. -/
  patience : Nat

namespace Call

/-- The octets of the request, if the arguments are accepted. -/
def encode (c : Call) (layout : Layout) : Except CallFailure Bytes :=
  (c.request.encode layout c.args).mapError Mismatch.requestFailure

/-- The failure of the call. -/
def failed (c : Call) (cause : CallFailure) : FailedCall :=
  ⟨c.target, c.method, c.args.toText, cause⟩

/-- The event that records the failure of the call. -/
def failureEvent (c : Call) (cause : CallFailure) : Event :=
  ⟨.error, "[oc-01] Canister call failed",
    [("canister", c.target.toText), ("method", c.method), ("args", c.args.toText),
      ("kind", cause.kind.name), ("error", cause.message)]⟩

/-- The failure of the call through a rejection. -/
def rejected (c : Call) (id : Option RequestId) (rejection : Rejection) (raw : String) :
    CallFailure :=
  .remoteRejected ⟨c.target, c.method, id, rejection, raw⟩

/-- Reports the outcome of the call, and records a failure. -/
def report {I : Interface} {β : Type} (c : Call) :
    Except CallFailure β → Workflow I (Except FailedCall β)
  | .ok result => return .ok result
  | .error cause => do
    Workflow.say (c.failureEvent cause)
    return .error (c.failed cause)

/-- Decodes a reply, and records a fault. -/
def decode {I : Interface} (c : Call) (reply : Bytes) : Workflow I (Except CallFailure Value) :=
  match c.response.decode reply with
  | .ok v => return .ok v
  | .error fault => do
    Workflow.say fault.event
    return .error fault.failure

end Call

end CertifiedCalls
