import CertifiedCalls.Canister.Id
import CertifiedCalls.Canister.Request
import CertifiedCalls.Certificate.HashTree
import CertifiedCalls.Failure
import CertifiedCalls.Workflow.World

/-! # The platform
What calls ask of the **platform**: to answer a query, to take an update, to certify the state of a
request, for the root key, and to open a certificate. Opening takes no time. -/

namespace CertifiedCalls

/-- The answer to a query. -/
inductive QueryAnswer where
  /-- A reply. -/
  | replied (reply : Bytes)
  /-- A rejection. -/
  | rejected (rejection : Rejection)
deriving DecidableEq, Repr

/-- A rejected query as it is shown to developers. -/
def Rejection.queryText (rejection : Rejection) : String :=
  "Rejected(" ++ rejection.debugText ++ ")"

/-- The immediate answer to an update. -/
inductive UpdateAnswer where
  /-- A certificate. -/
  | certified (certificate : Bytes)
  /-- The update is under way. -/
  | accepted
  /-- Neither, but a status. -/
  | unexpected (status : Nat)
deriving DecidableEq, Repr

/-- An update that the platform has taken. -/
structure Submission where
  /-- The identifier of the request. -/
  requestId : RequestId
  /-- The immediate answer. -/
  answer : UpdateAnswer
deriving DecidableEq

/-- A request to the **platform**. Methods go by the names under which they travel. -/
inductive PlatformRequest where
  /-- To answer a query. -/
  | query (target : CanisterId) (method : String) (arg : Bytes)
  /-- To take an update. -/
  | update (target : CanisterId) (method : String) (arg : Bytes)
  /-- To certify the state of a request. -/
  | readState (target : CanisterId) (id : RequestId)
  /-- For the root key. -/
  | rootKey
  /-- To open a certificate that is valid for a target. -/
  | openCertificate (certificate key : Bytes) (target : CanisterId)
deriving DecidableEq

/-- What a request to the platform is answered with, if it does not fail. -/
def PlatformRequest.Result : PlatformRequest → Type
  | .query _ _ _ => QueryAnswer
  | .update _ _ _ => Submission
  | .readState _ _ => Bytes
  | .rootKey => Bytes
  | .openCertificate _ _ _ => HashTree

/-- The interface of the **platform**. -/
abbrev platform : Interface where
  Request := PlatformRequest
  Answer r := Except TransportFailure r.Result

namespace PlatformRequest

/-- Makes a request to the platform and waits for the answer as long as it takes. -/
def ask (r : PlatformRequest) : Workflow platform (Except TransportFailure r.Result) :=
  Workflow.ask (I := platform) r

/-- Makes a request to the platform and waits for the answer up to a limit. -/
def askWithin (limit : Option Nat) (r : PlatformRequest) :
    Workflow platform (Option (Except TransportFailure r.Result)) :=
  Workflow.askWithin (I := platform) limit r

end PlatformRequest

end CertifiedCalls
