import CertifiedCalls.Time.Backoff
import Mathlib

/-! # Delays that double
The delay before a retry is the base delay, doubled as often as there were retries before, or the
longest duration (`Backoff.doubled`). Two limits stand between a delay and this law: that of durations,
which the law has as well, and that of the factor, which it does not have. `Backoff.delay_doubles` says
exactly where the second one shows. -/

namespace CertifiedCalls

namespace Duration

/-- A multiple of a duration, computed in words: of its whole seconds and of the nanoseconds beyond
them apart, where the seconds must fit into a word before and after the carry. -/
def timesInWords (d : Duration) (factor : Nat) : Duration :=
  let carry := d.subsecondNanos * factor / 1000000000
  if d.seconds * factor < 2 ^ 64 ∧ d.seconds * factor + carry < 2 ^ 64 then
    ⟨(d.seconds * factor + carry) * 1000000000 + d.subsecondNanos * factor % 1000000000⟩
  else ⟨maxNanos⟩

/-- A multiple in nanoseconds is its whole seconds, with the carry, and what is left of them. -/
theorem nanos_mul (d : Duration) (factor : Nat) :
    d.nanos * factor
      = (d.seconds * factor + d.subsecondNanos * factor / 1000000000) * 1000000000
        + d.subsecondNanos * factor % 1000000000 := by
  have parts : d.nanos = d.seconds * 1000000000 + d.subsecondNanos := by
    rw [seconds, subsecondNanos, Nat.div_add_mod']
  have carried := Nat.div_add_mod' (d.subsecondNanos * factor) 1000000000
  calc d.nanos * factor
      = d.seconds * factor * 1000000000 + d.subsecondNanos * factor := by
        rw [parts, Nat.add_mul, Nat.mul_right_comm]
    _ = _ := by rw [Nat.add_mul, Nat.add_assoc, carried]

/-- **Multiples in words are exact**: the two limits of the seconds are the one of durations. -/
theorem timesInWords_eq_times (d : Duration) (factor : Nat) :
    d.timesInWords factor = d.times factor := by
  have whole := nanos_mul d factor
  have rest : d.subsecondNanos * factor % 1000000000 < 1000000000 := Nat.mod_lt _ (by decide)
  simp only [timesInWords, times, maxNanos]
  split_ifs with fits
  · rw [Nat.min_eq_left (by omega), whole]
  · rw [Nat.min_eq_right (by omega)]

end Duration

namespace Backoff

variable {b : Backoff} {retry : Nat}

/-- The base delay **doubled** before each retry but the first, or the longest duration. -/
def doubled (b : Backoff) (retry : Nat) : Duration :=
  ⟨min (b.baseDelay.nanos * 2 ^ retry) Duration.maxNanos⟩

/-! ### The factor -/

/-- The factor doubles as long as it fits into 32 bits. -/
theorem factor_of_lt (early : retry < 32) : factor retry = 2 ^ retry := by
  rw [factor, if_pos early, Nat.one_shiftLeft]

/-- From then on it is the largest number of 32 bits. -/
theorem factor_of_le (late : 32 ≤ retry) : factor retry = 2 ^ 32 - 1 := by
  rw [factor, if_neg (Nat.not_lt.mpr late)]
  rfl

/-- A factor that does not fit is more than the largest number that does. -/
theorem factor_lt_of_le (late : 32 ≤ retry) : factor retry < 2 ^ retry := by
  have : 2 ^ 32 ≤ 2 ^ retry := Nat.pow_le_pow_right Nat.two_pos late
  rw [factor_of_le late]
  omega

/-- Factors do not shrink. -/
theorem factor_mono : Monotone factor := by
  refine monotone_nat_of_le_succ fun retry => ?_
  rcases Nat.lt_or_ge (retry + 1) 32 with early | late
  · rw [factor_of_lt early, factor_of_lt (Nat.lt_of_succ_lt early)]
    exact Nat.pow_le_pow_right Nat.two_pos retry.le_succ
  · rcases Nat.eq_or_lt_of_le late with last | later
    · obtain rfl : retry = 31 := by omega
      decide
    · rw [factor_of_le late, factor_of_le (by omega)]

/-! ### The delay -/

/-- Delays double as long as the factor does. -/
theorem delay_of_lt (b : Backoff) (early : retry < 32) : b.delay retry = b.doubled retry := by
  rw [delay, factor_of_lt early]
  rfl

/-- The delays after these are all the same. -/
theorem delay_of_le (b : Backoff) (late : 32 ≤ retry) :
    b.delay retry = ⟨min (b.baseDelay.nanos * (2 ^ 32 - 1)) Duration.maxNanos⟩ := by
  rw [delay, factor_of_le late]
  rfl

/-- Delays do not shrink. -/
theorem monotone_delay (b : Backoff) : Monotone fun retry => (b.delay retry).nanos :=
  fun _ _ le => min_le_min_right _ (Nat.mul_le_mul_left _ (factor_mono le))

/-- Twice the doubled delay is the next one, unless it is too long. -/
theorem doubled_succ (b : Backoff) (retry : Nat) :
    (b.doubled (retry + 1)).nanos = min (2 * (b.doubled retry).nanos) Duration.maxNanos := by
  have twice : b.baseDelay.nanos * 2 ^ (retry + 1) = 2 * (b.baseDelay.nanos * 2 ^ retry) := by
    rw [Nat.pow_succ]
    ring
  simp only [doubled, twice]
  omega

/-- A delay whose factor does not fit is as the law says only where the factor makes no difference. -/
theorem delay_eq_doubled_of_le_iff (b : Backoff) (late : 32 ≤ retry) :
    b.delay retry = b.doubled retry ↔
      b.baseDelay.nanos = 0 ∨ Duration.maxNanos ≤ b.baseDelay.nanos * (2 ^ 32 - 1) := by
  -- The factor is too small, and that shows unless there is nothing to multiply or the limit hides it.
  have less : 2 ^ 32 - 1 < 2 ^ retry := factor_of_le late ▸ factor_lt_of_le late
  rw [delay_of_le b late, doubled, Duration.mk.injEq]
  constructor
  · intro same
    by_contra! other
    have := Nat.mul_lt_mul_of_pos_left less (Nat.pos_of_ne_zero other.1)
    omega
  · rintro (zero | long)
    · rw [zero, Nat.zero_mul, Nat.zero_mul]
    · have := Nat.mul_le_mul_left b.baseDelay.nanos less.le
      rw [Nat.min_eq_right long, Nat.min_eq_right (long.trans this)]

/-- **Delays double until the factor does not fit into 32 bits.** A delay is as the law says before the
first 32 retries, and later only if the base delay is none or the longest duration is reached already.
Every later delay is one base delay short of being doubled 32 times. No delay is shorter than an earlier
one, and each of the first 32 is twice the one before, or the longest duration. -/
theorem delay_doubles (b : Backoff) :
    (∀ retry, b.delay retry = b.doubled retry ↔
      retry < 32 ∨ b.baseDelay.nanos = 0 ∨
        Duration.maxNanos ≤ b.baseDelay.nanos * (2 ^ 32 - 1)) ∧
    (∀ retry, 32 ≤ retry →
      b.delay retry = ⟨min (b.baseDelay.nanos * (2 ^ 32 - 1)) Duration.maxNanos⟩) ∧
    (Monotone fun retry => (b.delay retry).nanos) ∧
    ∀ retry, retry + 1 < 32 →
      (b.delay (retry + 1)).nanos = min (2 * (b.delay retry).nanos) Duration.maxNanos := by
  refine ⟨fun retry => ?_, fun retry => delay_of_le b, monotone_delay b, fun retry early => ?_⟩
  · rcases Nat.lt_or_ge retry 32 with early | late
    · exact iff_of_true (delay_of_lt b early) (.inl early)
    · rw [delay_eq_doubled_of_le_iff b late, or_iff_right (Nat.not_lt.mpr late)]
  · rw [delay_of_lt b early, delay_of_lt b (Nat.lt_of_succ_lt early), doubled_succ]

/-- The usual delays start with a tenth of a second. Before the eighth retry it is 12.8 seconds, twice as
long as before the seventh, and it never gets longer than some 4971 days. -/
theorem delay_doubles_standard :
    (7 < 32 ∧ (Backoff.mk 7 (.ofMillis 100)).delay 7 = .ofMillis 12800) ∧
      (32 ≤ 40 ∧ (Backoff.mk 7 (.ofMillis 100)).delay 40 = .ofMillis 429496729500) ∧
      (6 + 1 < 32 ∧ ((Backoff.mk 7 (.ofMillis 100)).delay 7).nanos =
        min (2 * ((Backoff.mk 7 (.ofMillis 100)).delay 6).nanos) Duration.maxNanos) := by
  have early : 7 < 32 := by decide
  have late : 32 ≤ 40 := by decide
  obtain ⟨law, after, -, twice⟩ := delay_doubles ⟨7, .ofMillis 100⟩
  exact ⟨⟨early, ((law 7).mpr (.inl early)).trans (by decide)⟩,
    ⟨late, (after 40 late).trans (by decide +kernel)⟩, early, twice 6 early⟩

/-- Delays that start with a millisecond have stopped doubling before the thirty-third retry. -/
theorem delay_ne_doubled_of_millisecond :
    (Backoff.mk 33 (.ofMillis 1)).delay 32 ≠ (Backoff.mk 33 (.ofMillis 1)).doubled 32 ∧
      (Backoff.mk 33 (.ofMillis 1)).delay 32 = .ofMillis 4294967295 ∧
      (Backoff.mk 33 (.ofMillis 1)).doubled 32 = .ofMillis 4294967296 := by
  decide +kernel

end Backoff

end CertifiedCalls
