import CertifiedCalls.Call.Basic
import CertifiedCalls.Call.Platform
import CertifiedCalls.Call.Retry

/-! # Queries
A **query** only reads. It is tried again while it fails in a way that may be tried again, always
with the same octets. -/

namespace CertifiedCalls

variable {β : Type}

namespace Call

/-- One attempt at a query. -/
def queryOnce (c : Call) (classify : TransportFailure → CallFailure) (arg : Bytes)
    (mapper : Mapper Value β) : Attempt platform β :=
  fun mapped => do
    let answer : Except TransportFailure QueryAnswer ←
      PlatformRequest.ask (.query c.target (wireMethodName c.method) arg)
    match answer with
    | .error failure => return (mapped, .error (classify failure))
    | .ok (.rejected rejection) =>
      return (mapped, .error (c.rejected none rejection rejection.queryText))
    | .ok (.replied reply) =>
      match ← c.decode reply with
      | .ok v => return (mapped + 1, mapper mapped v)
      | .error cause => return (mapped, .error cause)

end Call

namespace Agent

/-- The outcome of a query. -/
def queryOutcome (a : Agent) (c : Call) (mapper : Mapper Value β) :
    Workflow platform (Except CallFailure β) :=
  match c.encode a.config.layout with
  | .error cause => return .error cause
  | .ok arg => a.config.backoff.retrying c.args.toText (c.queryOnce a.classifier.classify arg mapper)

/-- Makes a **query**. -/
def query (a : Agent) (c : Call) (mapper : Mapper Value β) :
    Workflow platform (Except FailedCall β) := do
  c.report (← a.queryOutcome c mapper)

end Agent

end CertifiedCalls
