import CertifiedCalls.Decimal.Binary64
import CertifiedCalls.Time.Duration

/-! # Poll schedules
A **poll schedule** says when the status of a submitted request is read. Its delays grow by a factor
up to a cap, and it ends at a deadline that is fixed at submission: the last delay is cut short
there. The delays that grow are whole milliseconds; the clock, and so the time left to the deadline,
counts nanoseconds. -/

namespace CertifiedCalls

/-- How to **poll**. -/
structure PollSettings where
  /-- The delay before the first read, in milliseconds. -/
  initialDelayMs : Nat
  /-- The factor from one delay to the next. -/
  multiplier : Binary64
  /-- The longest delay, in milliseconds. -/
  maxDelayMs : Nat
  /-- The time from submission to the deadline, in milliseconds. -/
  timeoutMs : Nat
deriving DecidableEq, Repr

namespace PollSettings

/-- The longest delay on the clock. -/
def maxDelay (s : PollSettings) : Nat := (Duration.ofMillis s.maxDelayMs).nanos

/-- The time from submission to the deadline on the clock. -/
def timeout (s : PollSettings) : Nat := (Duration.ofMillis s.timeoutMs).nanos

end PollSettings

/-- A **poll schedule** under way. -/
structure PollSchedule where
  /-- The next delay in milliseconds, if the deadline is far enough. -/
  nextDelay : Nat
  /-- The factor from one delay to the next, at least one. -/
  multiplier : Binary64
  /-- The longest delay in milliseconds. -/
  maxDelay : Nat
  /-- When the request was submitted. -/
  started : Nat
  /-- When the schedule ends. -/
  deadline : Nat
deriving DecidableEq, Repr

namespace PollSchedule

/-- The schedule of a request submitted at the given time. -/
def start (settings : PollSettings) (started : Nat) : PollSchedule where
  nextDelay := min settings.initialDelayMs settings.maxDelayMs
  multiplier :=
    if settings.multiplier.atLeast (.ofNat 1) then settings.multiplier else .ofNat 1
  maxDelay := settings.maxDelayMs
  started := started
  deadline := started + settings.timeout

/-- The time since submission. -/
def elapsed (s : PollSchedule) (now : Nat) : Duration := ⟨now - s.started⟩

/-- Delays are kept in 64 bits. -/
def delayBound : Nat := 18446744073709551615

/-- A delay grown by the factor, rounded to a whole number of milliseconds. -/
def grow (s : PollSchedule) (delay : Nat) : Nat :=
  ((Binary64.ofNat delay).mul s.multiplier).roundToNat delayBound

/-- The schedule after a delay has been taken from it. -/
def advance (s : PollSchedule) : PollSchedule :=
  { s with nextDelay := min (s.grow s.nextDelay) s.maxDelay }

/-- The delay before the next read and the schedule after it, or `none` from the deadline on. -/
def next (s : PollSchedule) (now : Nat) : Option (Nat × PollSchedule) :=
  if now < s.deadline then
    some (min (Duration.ofMillis s.nextDelay).nanos (s.deadline - now), s.advance)
  else none

/-- The delays given out at a sequence of times. -/
def delaysAt (s : PollSchedule) : List Nat → List (Option Nat)
  | [] => []
  | now :: times =>
    match s.next now with
    | some (delay, s) => some delay :: delaysAt s times
    | none => none :: delaysAt s times

/-- The delays of at most so many reads that take no time, the time after them, and whether the
schedule ended there. -/
def run (s : PollSchedule) (now : Nat) : Nat → List Nat × Nat × Bool
  | 0 => ([], now, false)
  | reads + 1 =>
    match s.next now with
    | some (delay, s) =>
      let (delays, last, ended) := run s (now + delay) reads
      (delay :: delays, last, ended)
    | none => ([], now, true)

end PollSchedule

end CertifiedCalls
