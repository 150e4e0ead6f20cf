import CertifiedCalls.Failure
import CertifiedCalls.Workflow.Basic
import CertifiedCalls.Time.Backoff

/-! # Retrying
An attempt that fails in a way that may be tried again is repeated after the delays of a backoff, up
to its ceiling. Retries are counted in 32 bits. The replies that attempts have mapped are counted, so
that a mapper may depend on how often it has been used. -/

namespace CertifiedCalls

/-- Maps replies to results, given how many replies it has mapped before. -/
abbrev Mapper (α β : Type) := Nat → α → Except CallFailure β

/-- A mapper that does not depend on how often it is used. -/
def Mapper.pure {α β : Type} (f : α → Except CallFailure β) : Mapper α β := fun _ => f

/-- An **attempt**: given how many replies have been mapped before, it gives how many have been
mapped after it, and what came of it. -/
abbrev Attempt (I : Interface) (β : Type) := Nat → Workflow I (Nat × Except CallFailure β)

/-- The attempt that waits for an answer and maps it, or classifies its failure. -/
def Attempt.of {I : Interface} {α β : Type} (classify : TransportFailure → CallFailure)
    (ask : Workflow I (Except TransportFailure α)) (mapper : Mapper α β) : Attempt I β :=
  fun mapped => do
    match ← ask with
    | .ok reply => return (mapped + 1, mapper mapped reply)
    | .error failure => return (mapped, .error (classify failure))

namespace Backoff

/-- The event of a retry. -/
def retryEvent (b : Backoff) (args : String) (retry : UInt32) (cause : CallFailure) : Event :=
  ⟨.debug, "[oc-01] Retrying query",
    [("attempt", toString (retry + 1)),
      ("delay_ms", toString ((b.delay retry.toNat).millis % 18446744073709551616)),
      ("args", args), ("error", cause.message)]⟩

/-- The event of the last failure. The number of attempts has 32 bits as well, so that it is zero after
`2 ^ 32` of them, where overflows go unchecked. -/
def exhaustedEvent (retry : UInt32) (cause : CallFailure) : Event :=
  ⟨.warn, "[oc-01] Query retries exhausted",
    [("attempts", toString (retry + 1)), ("error", cause.message)]⟩

/-- Makes attempts, the first of which is the retry of the given number, with so many retries
left. -/
def attempts {I : Interface} {β : Type} (b : Backoff) (args : String) (attempt : Attempt I β) :
    Nat → UInt32 → Nat → Workflow I (Except CallFailure β)
  | left, retry, mapped => do
    let (mapped, outcome) ← attempt mapped
    match outcome with
    | .ok result => return .ok result
    | .error cause =>
      if cause.isRetryable then
        match left with
        | 0 => do
          Workflow.say (exhaustedEvent retry cause)
          return .error cause
        | left + 1 => do
          Workflow.say (b.retryEvent args retry cause)
          Workflow.pause (b.delay retry.toNat).nanos
          attempts b args attempt left (retry + 1) mapped
      else return .error cause

/-- **Retries** an attempt. -/
def retrying {I : Interface} {β : Type} (b : Backoff) (args : String) (attempt : Attempt I β) :
    Workflow I (Except CallFailure β) :=
  b.attempts args attempt b.maxRetries.toNat 0 0

end Backoff

end CertifiedCalls
