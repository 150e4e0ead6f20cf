import CertifiedCalls.Time.Duration

/-! # Backoff
**Backoff** says how long to wait before each retry: twice as long as before the one before, as far as
the factor fits into 32 bits. -/

namespace CertifiedCalls

/-- How often a query is tried again, and after which delays. -/
structure Backoff where
  /-- The most retries after the first attempt. -/
  maxRetries : UInt32
  /-- The delay before the first retry. -/
  baseDelay : Duration
deriving DecidableEq, Repr

namespace Backoff

/-- The multiple of the base delay before a retry, counted from zero. -/
def factor (retry : Nat) : Nat := if retry < 32 then 1 <<< retry else 4294967295

/-- The delay before a retry, counted from zero. -/
def delay (b : Backoff) (retry : Nat) : Duration := b.baseDelay.times (factor retry)

end Backoff

end CertifiedCalls
