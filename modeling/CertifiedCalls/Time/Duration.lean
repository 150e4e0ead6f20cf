/-! # Durations
A **duration** is a length of time in nanoseconds, up to the longest that 64 bits of seconds can hold.
Clocks count nanoseconds as well. -/

namespace CertifiedCalls

/-- A **duration** in nanoseconds. -/
structure Duration where
  /-- How many nanoseconds. -/
  nanos : Nat
deriving DecidableEq, Repr

namespace Duration

/-- The longest duration. -/
def maxNanos : Nat := 18446744073709551615999999999

/-- A duration of whole milliseconds. -/
def ofMillis (ms : Nat) : Duration := ⟨ms * 1000000⟩

/-- A millisecond has a million nanoseconds. -/
@[simp] theorem nanos_ofMillis (ms : Nat) : (ofMillis ms).nanos = ms * 1000000 := rfl

/-- More milliseconds are a longer duration. -/
theorem nanos_ofMillis_le {a b : Nat} (h : a ≤ b) : (ofMillis a).nanos ≤ (ofMillis b).nanos :=
  Nat.mul_le_mul_right _ h

/-- A positive number of milliseconds is a positive duration. -/
theorem nanos_ofMillis_pos {ms : Nat} (h : 0 < ms) : 0 < (ofMillis ms).nanos :=
  Nat.mul_pos h (by decide)

/-- The whole milliseconds of a duration. -/
def millis (d : Duration) : Nat := d.nanos / 1000000

/-- The whole seconds of a duration. -/
def seconds (d : Duration) : Nat := d.nanos / 1000000000

/-- The nanoseconds of a duration beyond its whole seconds. -/
def subsecondNanos (d : Duration) : Nat := d.nanos % 1000000000

/-- A multiple of a duration, or the longest one. -/
def times (d : Duration) (factor : Nat) : Duration := ⟨min (d.nanos * factor) maxNanos⟩

end Duration

end CertifiedCalls
