import CertifiedCalls.Call.Basic
import CertifiedCalls.Call.Platform
import CertifiedCalls.Call.Retry
import CertifiedCalls.Certificate.RequestStatus

/-! # Updates
An **update** changes state. It is submitted once, and its outcome is read from a certificate: the
one that answers the submission or, while that is still pending, one that is polled for until the
deadline. Certificates are opened with the root key, which is fetched when it is first needed and
shared by all calls of an agent. -/

namespace CertifiedCalls

variable {β : Type}

/-- A stretch of an update, which may fail. -/
abbrev UpdateStep (α : Type) := ExceptT CallFailure (Workflow platform) α

/-- A stretch of an update that cannot fail. -/
def UpdateStep.of {α : Type} (p : Workflow platform α) : UpdateStep α := ExceptT.lift p

/-- What one reading of a status comes to. -/
inductive Reading where
  /-- A certified status. -/
  | status (s : RequestStatus)
  /-- The reading failed in a way that may be tried again. -/
  | missed
  /-- The limit passed first. -/
  | lapsed
deriving DecidableEq, Repr

namespace Call

/-- The event of fetching the root key. -/
def rootKeyEvent : Event := ⟨.debug, "[oc-01] Fetching root key", []⟩

/-- The event of a certificate that does not decide the call yet. -/
def pendingEvent (c : Call) (id : RequestId) : Event :=
  ⟨.debug, "[oc-01] Synchronous certificate still pending, polling",
    [("request_id", id.toText), ("method", c.method)]⟩

/-- The event of an update that is under way. -/
def acceptedEvent (c : Call) (id : RequestId) : Event :=
  ⟨.debug, "[oc-01] Update accepted, polling", [("request_id", id.toText), ("method", c.method)]⟩

/-- The event of a reading that lasted too long. -/
def lapsedEvent (id : RequestId) : Event :=
  ⟨.debug, "[oc-01] Status read outlived the poll deadline", [("request_id", id.toText)]⟩

/-- The event of a reading that failed. -/
def missedEvent (id : RequestId) (cause : CallFailure) : Event :=
  ⟨.debug, "[oc-01] Status read failed, still polling",
    [("request_id", id.toText), ("error", cause.message)]⟩

/-- The event of a final status. -/
def finalEvent (id : RequestId) (elapsedMs : Nat) : Event :=
  ⟨.debug, "[oc-01] Update reached terminal status",
    [("request_id", id.toText), ("elapsed_ms", toString elapsedMs)]⟩

/-- Fetches the root key, with nobody else doing so. -/
def fetchRootKey (k : Classifier) (limit : Option Nat) : UpdateStep (Option Bytes) := do
  UpdateStep.of (Workflow.say rootKeyEvent)
  let answer : Option (Except TransportFailure Bytes) ←
    UpdateStep.of (PlatformRequest.askWithin limit .rootKey)
  match answer with
  | some (.ok key) =>
    UpdateStep.of (Workflow.publishKey key)
    return some key
  | some (.error failure) =>
    UpdateStep.of Workflow.releaseKey
    throw (k.classify failure)
  | none =>
    UpdateStep.of Workflow.releaseKey
    return none

/-- The root key, unless the limit passes first. -/
def rootKey (k : Classifier) (limit : Option Nat) : UpdateStep (Option Bytes) := do
  match ← UpdateStep.of (Workflow.claimKey limit) with
  | .known key => return some key
  | .granted => fetchRootKey k limit
  | .lapsed => return none

/-- The status that a certificate vouches for, unless the limit passes first. -/
def certifiedStatus (c : Call) (k : Classifier) (limit : Option Nat) (id : RequestId)
    (certificate : Bytes) : UpdateStep Reading := do
  match ← rootKey k limit with
  | none => return .lapsed
  | some key =>
    let opened : Except TransportFailure HashTree ←
      UpdateStep.of (PlatformRequest.ask (.openCertificate certificate key c.target))
    match opened with
    | .error failure => throw (k.classify failure)
    | .ok tree =>
      match tree.requestStatus id with
      | .error fault => throw (.transientOf fault.message)
      | .ok status => return .status status

/-- One reading of the status of a request, up to a limit. -/
def readStatus (c : Call) (k : Classifier) (limit : Nat) (id : RequestId) : UpdateStep Reading := do
  let answer : Option (Except TransportFailure Bytes) ←
    UpdateStep.of (PlatformRequest.askWithin (some limit) (.readState c.target id))
  match answer with
  | none => return .lapsed
  | some (.ok certificate) => c.certifiedStatus k (some limit) id certificate
  | some (.error failure) =>
    if (k.classify failure).isRetryable then
      UpdateStep.of (Workflow.say (missedEvent id (k.classify failure)))
      return .missed
    else throw (k.classify failure)

/-- The failure of a request whose reply is gone. -/
def goneFailure (id : RequestId) : CallFailure :=
  .transientOf ("request " ++ id.toText ++ " is done and its reply is no longer available")

/-- The failure of a request that has not ended. -/
def pendingFailure (id : RequestId) (pending : RequestStatus) : CallFailure :=
  .transientOf ("request " ++ id.toText ++ " is not terminal: " ++ pending.debugText)

/-- The reply that a final status carries. -/
def resolve (c : Call) (id : RequestId) : RequestStatus → Except CallFailure Bytes
  | .replied reply => .ok reply
  | .rejected rejection => .error (c.rejected (some id) rejection rejection.debugText)
  | .done => .error (goneFailure id)
  | pending => .error (pendingFailure id pending)

/-- Gives a request up. -/
def timeOut (schedule : PollSchedule) (id : RequestId) : UpdateStep Bytes := do
  let now ← UpdateStep.of Workflow.now
  throw (.timedOut id (schedule.elapsed now).millis)

/-- **Polls** for the final status of a request, with at most so many readings. -/
def poll (c : Call) (k : Classifier) (id : RequestId) : Nat → PollSchedule → UpdateStep Bytes
  | 0, _ => UpdateStep.of .unfinished
  | readings + 1, schedule => do
    let now ← UpdateStep.of Workflow.now
    match schedule.next now with
    | none => timeOut schedule id
    | some (delay, next) =>
      UpdateStep.of (Workflow.pause delay)
      match ← c.readStatus k schedule.deadline id with
      | .missed => poll c k id readings next
      | .lapsed => do
        UpdateStep.of (Workflow.say (lapsedEvent id))
        timeOut schedule id
      | .status s =>
        if s.isTerminal then
          let now ← UpdateStep.of Workflow.now
          UpdateStep.of (Workflow.say (finalEvent id (schedule.elapsed now).millis))
          c.resolve id s
        else poll c k id readings next

/-- The rejection that stands for an answer that is neither a certificate nor an acceptance. -/
def unexpectedRejection : Rejection := ⟨.canisterReject, "", none⟩

/-- The failure of an update that got an unexpected answer. -/
def unexpectedFailure (c : Call) (id : RequestId) (status : Nat) : CallFailure :=
  c.rejected (some id) unexpectedRejection ("unexpected call response status " ++ toString status)

end Call

namespace Agent

/-- Polls for a request that was submitted at the given time. -/
def poll (a : Agent) (c : Call) (id : RequestId) (submitted : Nat) : UpdateStep Bytes :=
  c.poll a.classifier id a.patience (.start a.config.poll submitted)

/-- What the answer to a submission leads to. -/
def await (a : Agent) (c : Call) (submitted : Nat) (id : RequestId) :
    UpdateAnswer → UpdateStep Bytes
  | .certified certificate => do
    match ← c.certifiedStatus a.classifier none id certificate with
    | .status s =>
      if s.isTerminal then c.resolve id s
      else
        UpdateStep.of (Workflow.say (c.pendingEvent id))
        a.poll c id submitted
    | _ => a.poll c id submitted
  | .accepted => do
    UpdateStep.of (Workflow.say (c.acceptedEvent id))
    a.poll c id submitted
  | .unexpected status => throw (c.unexpectedFailure id status)

/-- Submits an update and waits for its reply. -/
def submit (a : Agent) (c : Call) (arg : Bytes) : UpdateStep Bytes := do
  let submitted ← UpdateStep.of Workflow.now
  let answer : Except TransportFailure Submission ←
    UpdateStep.of (PlatformRequest.ask (.update c.target (wireMethodName c.method) arg))
  match answer with
  | .error failure => throw (a.classifier.classify failure)
  | .ok submission => a.await c submitted submission.requestId submission.answer

/-- The outcome of an update. -/
def updateOutcome (a : Agent) (c : Call) (mapper : Mapper Value β) : UpdateStep β := do
  let arg ← c.encode a.config.layout
  let reply ← a.submit c arg
  let v ← ExceptT.mk (c.decode reply)
  mapper 0 v

/-- Makes an **update**. -/
def update (a : Agent) (c : Call) (mapper : Mapper Value β) :
    Workflow platform (Except FailedCall β) := do
  c.report (← (a.updateOutcome c mapper).run)

end Agent

end CertifiedCalls
