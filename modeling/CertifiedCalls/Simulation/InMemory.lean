import CertifiedCalls.Call.Platform
import CertifiedCalls.Certificate.RequestStatus
import CertifiedCalls.Digest.Sha256

/-! # A platform in memory
A platform that answers every request at once from **canned answers** and remembers what it has seen.
Its certificates are tokens that it alone can open, with the trees that it has issued them for. -/

namespace CertifiedCalls.Simulation

/-- The **kinds** of requests with canned answers. -/
inductive Kind where
  /-- A query. -/
  | query
  /-- An update. -/
  | update
  /-- A reading of a state. -/
  | readState
deriving DecidableEq, Repr

/-- The name of a kind. -/
def Kind.name : Kind → String
  | .query => "query"
  | .update => "call"
  | .readState => "read_state"

/-- The kind of a name. -/
def Kind.ofName? (name : String) : Option Kind :=
  [query, update, readState].find? fun kind => kind.name == name

/-- A request that was **seen**. A reading of a state has the method and the argument of its
update. -/
structure Seen where
  /-- Its kind. -/
  kind : Kind
  /-- Its target. -/
  target : CanisterId
  /-- The method, by the name under which it travels. -/
  method : String
  /-- The argument. -/
  arg : Bytes
  /-- The identifier of the request, but for queries. -/
  requestId : Option RequestId
deriving DecidableEq

/-- A **canned answer**. -/
inductive Canned where
  /-- A reply, certified but for queries. -/
  | reply (octets : Bytes)
  /-- A rejection, certified but for queries. -/
  | reject (rejection : Rejection)
  /-- An acceptance without a certificate, or a certificate of a request at work. -/
  | pending
  /-- A certificate of a request at work. -/
  | certifiedPending
  /-- A status that no update expects. -/
  | unexpected (status : Nat)
  /-- A failure. -/
  | fail (failure : TransportFailure)
deriving DecidableEq, Repr

/-- A canned answer as it is shown to developers, where it cannot answer a query. -/
def Canned.debugText : Canned → String
  | .reply _ => "Reply"
  | .reject _ => "Reject"
  | .pending => "Pending"
  | .certifiedPending => "CertifiedPending"
  | .unexpected status => "Unexpected(" ++ toString status ++ ")"
  | .fail _ => "Fail"

/-- Chooses canned answers, given a state of its own. -/
abbrev Answerer (τ : Type) := τ → Seen → τ × Canned

/-- The **memory** of the platform. -/
structure Memory (τ : Type) where
  /-- The requests that it has seen, the latest first. -/
  seen : List Seen
  /-- The method and the argument of each update. -/
  updates : List (RequestId × (String × Bytes))
  /-- The certificates that it has issued. -/
  certificates : List (Bytes × HashTree)
  /-- How many identifiers and certificates it has issued. -/
  issued : Nat
  /-- How often it was asked for the root key. -/
  rootKeyFetches : Nat
  /-- The state of the answerer. -/
  answerer : τ

namespace Memory

variable {τ : Type}

/-- A platform that has seen nothing. -/
def start (answerer : τ) : Memory τ := ⟨[], [], [], 0, 0, answerer⟩

/-- The root key. -/
def rootKey : Bytes := Bytes.ofText "mock-root-key"

/-- The identifier of the update of a number. -/
def requestIdOf (n : Nat) : RequestId :=
  ⟨Sha256.hash (Bytes.bigEndian 8 n), Sha256.length_hash _⟩

/-- The certificate of a number. -/
def tokenOf (n : Nat) : Bytes := Bytes.ofText ("mock-certificate-" ++ toString n)

/-- The content of a certificate of a request's status. -/
def statusTree (id : RequestId) (fields : List (StatusField × Bytes)) : HashTree :=
  .labeled statusRoot (.labeled id.bytes
    (.ofChildren (fields.map fun field => (Bytes.ofText field.1.label, .leaf field.2))))

/-- The fields of a rejection. -/
def rejectionFields (r : Rejection) : List (StatusField × Bytes) :=
  [(.status, Bytes.ofText "rejected"), (.rejectCode, Leb128.write r.code.code),
    (.rejectMessage, Bytes.ofText r.message)]
  ++ (r.errorCode.map fun code => (.errorCode, Bytes.ofText code)).toList

/-- The fields that certify a canned answer, if it can be certified. -/
def fieldsOf : Canned → Option (List (StatusField × Bytes))
  | .reply octets => some [(.status, Bytes.ofText "replied"), (.reply, octets)]
  | .reject rejection => some (rejectionFields rejection)
  | .pending => some [(.status, Bytes.ofText "processing")]
  | .certifiedPending => some [(.status, Bytes.ofText "processing")]
  | .unexpected _ => none
  | .fail _ => none

/-- Issues a certificate of a canned answer, if it can be certified. -/
def certify (m : Memory τ) (id : RequestId) (canned : Canned) : Memory τ × Option Bytes :=
  match fieldsOf canned with
  | some fields =>
    let token := tokenOf (m.issued + 1)
    ({ m with
        issued := m.issued + 1
        certificates := (token, statusTree id fields) :: m.certificates }, some token)
  | none => (m, none)

/-- Sees a request and chooses its canned answer. -/
def see (answer : Answerer τ) (m : Memory τ) (seen : Seen) : Memory τ × Canned :=
  let (answerer, canned) := answer m.answerer seen
  ({ m with seen := seen :: m.seen, answerer }, canned)

/-- The answer to a query. -/
def queryAnswer : Canned → Except TransportFailure QueryAnswer
  | .reply octets => .ok (.replied octets)
  | .reject rejection => .ok (.rejected rejection)
  | .fail failure => .error failure
  | other => .error (.ofMessage ("mock transport cannot answer a query with " ++ other.debugText))

/-- Answers a query. -/
def query (answer : Answerer τ) (m : Memory τ) (target : CanisterId) (method : String)
    (arg : Bytes) : Memory τ × Except TransportFailure QueryAnswer :=
  let (m, canned) := m.see answer ⟨.query, target, method, arg, none⟩
  (m, queryAnswer canned)

/-- Answers an update. -/
def update (answer : Answerer τ) (m : Memory τ) (target : CanisterId) (method : String)
    (arg : Bytes) : Memory τ × Except TransportFailure Submission :=
  let id := requestIdOf (m.issued + 1)
  let m := { m with issued := m.issued + 1, updates := (id, (method, arg)) :: m.updates }
  let (m, canned) := m.see answer ⟨.update, target, method, arg, some id⟩
  match canned with
  | .fail failure => (m, .error failure)
  | .pending => (m, .ok ⟨id, .accepted⟩)
  | .unexpected status => (m, .ok ⟨id, .unexpected status⟩)
  | certified =>
    let (m, token) := m.certify id certified
    (m, .ok ⟨id, token.elim .accepted .certified⟩)

/-- Answers a reading of a state. -/
def readState (answer : Answerer τ) (m : Memory τ) (target : CanisterId) (id : RequestId) :
    Memory τ × Except TransportFailure Bytes :=
  let (method, arg) := (m.updates.lookup id).getD ("", [])
  let (m, canned) := m.see answer ⟨.readState, target, method, arg, some id⟩
  match canned with
  | .fail failure => (m, .error failure)
  | other =>
    let (m, token) := m.certify id other
    (m, token.elim (.error (.ofMessage "mock transport has no certificate to serve")) .ok)

/-- Opens a certificate. -/
def openCertificate (m : Memory τ) (certificate key : Bytes) : Except TransportFailure HashTree :=
  if key = rootKey then
    (m.certificates.lookup certificate).elim
      (.error (.ofMessage "Certificate verification failed: unknown certificate")) .ok
  else .error (.ofMessage "Certificate verification failed: root key mismatch")

/-- The platform in memory. -/
def environment (answer : Answerer τ) : Environment platform (Memory τ) := fun m _ r =>
  match r with
  | .query target method arg =>
    let (m, result) := m.query answer target method arg
    ⟨m, 0, result⟩
  | .update target method arg =>
    let (m, result) := m.update answer target method arg
    ⟨m, 0, result⟩
  | .readState target id =>
    let (m, result) := m.readState answer target id
    ⟨m, 0, result⟩
  | .rootKey => ⟨{ m with rootKeyFetches := m.rootKeyFetches + 1 }, 0, .ok rootKey⟩
  | .openCertificate certificate key _ => ⟨m, 0, m.openCertificate certificate key⟩

/-- How many requests of a kind it has seen. -/
def count (m : Memory τ) (kind : Kind) : Nat := (m.seen.filter fun s => s.kind == kind).length

end Memory

end CertifiedCalls.Simulation
