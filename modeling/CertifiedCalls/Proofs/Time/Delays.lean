import CertifiedCalls.Proofs.Time.Growth

/-! # Delays until the deadline
Whatever the factor is, the delays of a schedule do not shrink, apart from the last one, which is cut
short at the deadline. So a schedule that is asked again after each delay runs out
(`runsOut_exchanges`). -/

namespace CertifiedCalls

namespace PollSchedule

variable {s : PollSchedule} {now time delay : Nat} {times : List Nat}

/-! ### Steady schedules -/

/-- A schedule is **steady** when its delays are positive and do not shrink. -/
structure Steady (s : PollSchedule) : Prop where
  /-- The next delay is positive. -/
  pos : 0 < s.nextDelay
  /-- It is not longer than the longest. -/
  within : s.nextDelay ≤ s.maxDelay
  /-- The longest delay is a double. -/
  bounded : s.maxDelay < 2 ^ 53
  /-- The factor is one or more. -/
  factor : s.multiplier.value.AtLeast 1

/-- The factor of a schedule is one or more, whatever the settings say. -/
theorem atLeast_multiplier_start (settings : PollSettings) (started : Nat) :
    (start settings started).multiplier.value.AtLeast 1 := by
  rw [start]
  split_ifs with least
  · exact (Binary64.atLeast_iff Binary64.is_one).mp least
  · exact Binary64.is_one.atLeast_iff.mpr le_rfl

/-- A schedule starts steady. -/
theorem steady_start {settings : PollSettings} (started : Nat) (initial : 1 ≤ settings.initialDelayMs)
    (longest : 1 ≤ settings.maxDelayMs) (bounded : settings.maxDelayMs < 2 ^ 53) :
    (start settings started).Steady where
  pos := lt_min initial longest
  within := Nat.min_le_right _ _
  bounded := bounded
  factor := atLeast_multiplier_start settings started

namespace Steady

/-- The delay after a delay is not shorter. -/
theorem le_advance (h : s.Steady) : s.nextDelay ≤ s.advance.nextDelay :=
  le_min (le_grow (h.within.trans_lt h.bounded) h.factor) h.within

/-- Neither is it on the clock. -/
theorem span_le_advance (h : s.Steady) :
    (Duration.ofMillis s.nextDelay).nanos ≤ (Duration.ofMillis s.advance.nextDelay).nanos :=
  Duration.nanos_ofMillis_le h.le_advance

/-- A schedule stays steady. -/
theorem advance (h : s.Steady) : s.advance.Steady where
  pos := h.pos.trans_le h.le_advance
  within := Nat.min_le_right _ _
  bounded := h.bounded
  factor := h.factor

end Steady

/-! ### Exchanges -/

/-- Taking a delay does not move the deadline. -/
@[simp] theorem deadline_advance : s.advance.deadline = s.deadline := rfl

/-- The times at which a schedule is asked, each with the delay that is answered. -/
def exchanges (s : PollSchedule) (times : List Nat) : List (Nat × Option Nat) :=
  times.zip (s.delaysAt times)

/-- Nothing is answered when nothing is asked. -/
@[simp] theorem exchanges_nil : s.exchanges [] = [] := rfl

/-- Before the deadline, a delay is answered. -/
theorem exchanges_of_lt (early : now < s.deadline) :
    s.exchanges (now :: times)
      = (now, some (min (Duration.ofMillis s.nextDelay).nanos (s.deadline - now)))
        :: s.advance.exchanges times := by
  rw [exchanges, delaysAt, next, if_pos early]
  rfl

/-- From the deadline on, none is. -/
theorem exchanges_of_le (late : s.deadline ≤ now) :
    s.exchanges (now :: times) = (now, none) :: s.exchanges times := by
  rw [exchanges, delaysAt, next, if_neg (Nat.not_lt.mpr late)]
  rfl

/-- Each time has its answer. -/
theorem map_fst_exchanges (s : PollSchedule) (times : List Nat) :
    (s.exchanges times).map Prod.fst = times := by
  induction times generalizing s with
  | nil => rfl
  | cons now times ih =>
    rcases Nat.lt_or_ge now s.deadline with early | late
    · rw [exchanges_of_lt early, List.map_cons, ih]
    · rw [exchanges_of_le late, List.map_cons, ih]

/-- An answer is what one of the delays of the schedule comes to at that time. -/
theorem exists_answer {answer : Option Nat} (mem : (time, answer) ∈ s.exchanges times) :
    ∃ k, answer = if time < s.deadline then
      some (min (Duration.ofMillis (s.delayAfter k)).nanos (s.deadline - time)) else none := by
  induction times generalizing s with
  | nil => exact absurd mem List.not_mem_nil
  | cons now times ih =>
    rcases Nat.lt_or_ge now s.deadline with early | late
    · rw [exchanges_of_lt early, List.mem_cons] at mem
      rcases mem with here | later
      · obtain ⟨rfl, rfl⟩ := Prod.mk.inj here
        exact ⟨0, (if_pos early).symm⟩
      · obtain ⟨k, eq⟩ := ih later
        exact ⟨k + 1, eq⟩
    · rw [exchanges_of_le late, List.mem_cons] at mem
      rcases mem with here | later
      · obtain ⟨rfl, rfl⟩ := Prod.mk.inj here
        exact ⟨0, (if_neg (Nat.not_lt.mpr late)).symm⟩
      · exact ih later

/-- No delay is answered exactly from the deadline on. -/
theorem answer_eq_none_iff {answer : Option Nat} (mem : (time, answer) ∈ s.exchanges times) :
    answer = none ↔ s.deadline ≤ time := by
  obtain ⟨k, rfl⟩ := exists_answer mem
  split_ifs with early
  · exact iff_of_false not_false (Nat.not_le.mpr early)
  · exact iff_of_true rfl (Nat.le_of_not_lt early)

/-- A delay that is answered is one of those of the schedule, or ends at the deadline. -/
theorem exists_delay (mem : (time, some delay) ∈ s.exchanges times) :
    ∃ k, time < s.deadline ∧
      delay = min (Duration.ofMillis (s.delayAfter k)).nanos (s.deadline - time) := by
  obtain ⟨k, eq⟩ := exists_answer mem
  split_ifs at eq with early
  exact ⟨k, early, Option.some.inj eq⟩

/-! ### Pace -/

/-- The delay answered in one exchange is **over before** the question of another one. -/
def OverBefore (a b : Nat × Option Nat) : Prop := a.1 + a.2.getD 0 ≤ b.1

/-- Exchanges keep **pace** when each delay is over before the next question. -/
def Paced (asked : List (Nat × Option Nat)) : Prop := asked.IsChain OverBefore

/-- Exchanges keep **exact pace** when each question comes as soon as the delay before it is over. -/
def ExactlyPaced (asked : List (Nat × Option Nat)) : Prop :=
  asked.IsChain fun a b => a.1 + a.2.getD 0 = b.1

/-- The delays that were answered. -/
def given (asked : List (Nat × Option Nat)) : List Nat := (asked.map Prod.snd).reduceOption

/-- Exact pace is pace. -/
theorem ExactlyPaced.paced {asked : List (Nat × Option Nat)} (h : ExactlyPaced asked) : Paced asked :=
  h.imp fun _ _ eq => eq.le

/-- Each delay is over before every later question. -/
theorem Paced.pairwise {asked : List (Nat × Option Nat)} (h : Paced asked) :
    asked.Pairwise OverBefore := by
  have trans : Trans OverBefore OverBefore OverBefore :=
    ⟨fun first second => first.trans ((Nat.le_add_right _ _).trans second)⟩
  exact List.IsChain.pairwise h

namespace Steady

/-- The delays of a steady schedule are no shorter than the first and no longer than the longest. -/
theorem delayAfter_spec (h : s.Steady) (k : Nat) :
    s.nextDelay ≤ s.delayAfter k ∧ s.delayAfter k ≤ s.maxDelay := by
  induction k generalizing s with
  | zero => exact ⟨le_rfl, h.within⟩
  | succ k ih => exact ⟨h.le_advance.trans (ih h.advance).1, (ih h.advance).2⟩

/-- Each delay is positive, no longer than the longest, and over by the deadline. -/
theorem bounds (h : s.Steady) (mem : (time, some delay) ∈ s.exchanges times) :
    0 < delay ∧ delay ≤ (Duration.ofMillis s.maxDelay).nanos ∧ time + delay ≤ s.deadline := by
  obtain ⟨k, early, rfl⟩ := exists_delay mem
  obtain ⟨least, most⟩ := h.delayAfter_spec k
  have pos := Duration.nanos_ofMillis_pos (h.pos.trans_le least)
  have within := Duration.nanos_ofMillis_le most
  omega

/-- Each delay is no shorter than the first, or ends at the deadline. -/
theorem le_or_ends (h : s.Steady) (mem : (time, some delay) ∈ s.exchanges times) :
    (Duration.ofMillis s.nextDelay).nanos ≤ delay ∨ time + delay = s.deadline := by
  obtain ⟨k, early, rfl⟩ := exists_delay mem
  have least := Duration.nanos_ofMillis_le (h.delayAfter_spec k).1
  omega

/-- No delay is shorter than an earlier one, unless it ends at the deadline. -/
theorem pairwise_le (h : s.Steady) (times : List Nat) : (s.exchanges times).Pairwise fun a b =>
    ∀ d e, a.2 = some d → b.2 = some e → d ≤ e ∨ b.1 + e = s.deadline := by
  induction times generalizing s with
  | nil => exact List.Pairwise.nil
  | cons now times ih =>
    rcases Nat.lt_or_ge now s.deadline with early | late
    · rw [exchanges_of_lt early, List.pairwise_cons]
      refine ⟨fun later mem d e first second => ?_, ih h.advance⟩
      obtain rfl := Option.some.inj first
      obtain ⟨time, answer⟩ := later
      obtain rfl : answer = some e := second
      have longer := h.advance.le_or_ends mem
      rcases longer with longer | ends
      · exact .inl ((Nat.min_le_left _ _).trans (h.span_le_advance.trans longer))
      · exact .inr ends
    · rw [exchanges_of_le late, List.pairwise_cons]
      exact ⟨fun later mem d e first => absurd first.symm (Option.some_ne_none d), ih h⟩

end Steady

/-! ### Running out -/

/-- The delays of a question before the deadline are its own and those after it. -/
@[simp] theorem given_cons_some (rest : List (Nat × Option Nat)) :
    given ((now, some delay) :: rest) = delay :: given rest := rfl

/-- A question comes first among its exchanges. -/
theorem exists_exchanges_cons (s : PollSchedule) (now : Nat) (times : List Nat) :
    ∃ answer rest, s.exchanges (now :: times) = (now, answer) :: rest := by
  rcases Nat.lt_or_ge now s.deadline with early | late
  · exact ⟨_, _, exchanges_of_lt early⟩
  · exact ⟨_, _, exchanges_of_le late⟩

/-- At pace, the next question comes after the delay. -/
theorem Paced.next {answer : Option Nat}
    (h : Paced ((now, answer) :: s.exchanges (time :: times))) :
    now + answer.getD 0 ≤ time ∧ Paced (s.exchanges (time :: times)) := by
  obtain ⟨_, _, eq⟩ := exists_exchanges_cons s time times
  rw [eq] at h ⊢
  exact List.isChain_cons_cons.mp h

/-- At exact pace, it comes at the end of the delay. -/
theorem ExactlyPaced.next {answer : Option Nat}
    (h : ExactlyPaced ((now, answer) :: s.exchanges (time :: times))) :
    now + answer.getD 0 = time ∧ ExactlyPaced (s.exchanges (time :: times)) := by
  obtain ⟨_, _, eq⟩ := exists_exchanges_cons s time times
  rw [eq] at h ⊢
  exact List.isChain_cons_cons.mp h

/-- From the deadline on, pace leaves no delays. -/
theorem given_exchanges_of_le (late : s.deadline ≤ now) (paced : Paced (s.exchanges (now :: times))) :
    given (s.exchanges (now :: times)) = [] := by
  have later : ∀ exchange ∈ s.exchanges (now :: times), s.deadline ≤ exchange.1 := by
    have after := paced.pairwise
    rw [exchanges_of_le late, List.pairwise_cons] at after
    rw [exchanges_of_le late, List.forall_mem_cons]
    exact ⟨late, fun exchange mem => late.trans (after.1 exchange mem)⟩
  rw [given, List.reduceOption, List.filterMap_eq_nil_iff, List.forall_mem_map]
  exact fun exchange mem => (answer_eq_none_iff mem).mpr (later exchange mem)

/-- All delays but one take up less than the time to the deadline. -/
theorem Steady.length_given_mul_lt (h : s.Steady) (paced : Paced (s.exchanges (now :: times)))
    {c : Nat} (least : c ≤ (Duration.ofMillis s.nextDelay).nanos) (pos : 0 < c) :
    (given (s.exchanges (now :: times))).length * c < (s.deadline - now) + c := by
  induction times generalizing s now with
  | nil =>
    rcases Nat.lt_or_ge now s.deadline with early | late
    · rw [exchanges_of_lt early, given_cons_some, exchanges_nil]
      show 1 * c < _
      omega
    · rw [given_exchanges_of_le late paced, List.length_nil, Nat.zero_mul]
      omega
  | cons time times ih =>
    rcases Nat.lt_or_ge now s.deadline with early | late
    · rw [exchanges_of_lt early] at paced ⊢
      obtain ⟨next, paced⟩ := paced.next
      have rest := ih h.advance paced (least.trans h.span_le_advance)
      rw [deadline_advance] at rest
      rw [given_cons_some, List.length_cons, Nat.add_mul, Nat.one_mul, Nat.add_lt_add_iff_right]
      rw [Option.getD_some] at next
      -- The delay is a whole one, or the next question comes at the deadline.
      rcases Nat.le_total (Duration.ofMillis s.nextDelay).nanos (s.deadline - now) with whole | cut
      · rw [Nat.min_eq_left whole] at next
        omega
      · rw [Nat.min_eq_right cut] at next
        have none : s.deadline - time = 0 := by omega
        rw [none, Nat.zero_add] at rest
        have few := Nat.lt_of_mul_lt_mul_right (rest.trans_eq (Nat.one_mul c).symm)
        rw [Nat.lt_one_iff.mp few]
        omega
    · rw [given_exchanges_of_le late paced, List.length_nil, Nat.zero_mul]
      omega

/-- Delays at exact pace sum to the time to the deadline, when it is reached. -/
theorem sum_given (paced : ExactlyPaced (s.exchanges (now :: times)))
    (ended : none ∈ (s.exchanges (now :: times)).map Prod.snd) :
    (given (s.exchanges (now :: times))).sum = s.deadline - now := by
  induction times generalizing s now with
  | nil =>
    rcases Nat.lt_or_ge now s.deadline with early | late
    · rw [exchanges_of_lt early] at ended
      exact absurd ended (by simp)
    · rw [given_exchanges_of_le late paced.paced, List.sum_nil]
      omega
  | cons time times ih =>
    rcases Nat.lt_or_ge now s.deadline with early | late
    · rw [exchanges_of_lt early] at paced ended ⊢
      obtain ⟨next, paced⟩ := paced.next
      rw [List.map_cons, List.mem_cons, or_iff_right (Option.some_ne_none _).symm] at ended
      have rest := ih paced ended
      rw [Option.getD_some] at next
      rw [given_cons_some, List.sum_cons, rest, deadline_advance]
      omega
    · rw [given_exchanges_of_le late paced.paced, List.sum_nil]
      omega

/-- A loop whose reads take no time goes on after the delay, before the deadline. -/
theorem run_of_lt {reads : Nat} (early : now < s.deadline) {d last : Nat} {ended : Bool}
    {delays : List Nat} (same : d = min (Duration.ofMillis s.nextDelay).nanos (s.deadline - now))
    (rest : s.advance.run (now + d) reads = (delays, last, ended)) :
    s.run now (reads + 1) = (d :: delays, last, ended) := by
  rw [run, next, if_pos early, ← same]
  simp only [rest]

/-- It ends at the deadline. -/
theorem run_of_le {reads : Nat} (late : s.deadline ≤ now) : s.run now (reads + 1) = ([], now, true) := by
  rw [run, next, if_neg (Nat.not_lt.mpr late)]

/-- A loop whose reads take no time ends at the deadline, after delays that sum to the time until then,
when it may read as often as the first delay fits into that time and once more. -/
theorem Steady.run_eq {reads : Nat} (h : s.Steady) (within : now ≤ s.deadline)
    (enough : s.deadline - now ≤ reads * (Duration.ofMillis s.nextDelay).nanos) :
    ∃ delays, s.run now (reads + 1) = (delays, s.deadline, true) ∧ delays.sum = s.deadline - now := by
  induction reads generalizing s now with
  | zero =>
    obtain rfl : now = s.deadline := by omega
    exact ⟨[], run_of_le le_rfl, (Nat.sub_self _).symm⟩
  | succ reads ih =>
    rcases Nat.lt_or_eq_of_le within with early | rfl
    · obtain ⟨delay, same⟩ : ∃ d, d = min (Duration.ofMillis s.nextDelay).nanos (s.deadline - now) :=
        ⟨_, rfl⟩
      have longer := Nat.mul_le_mul_left reads h.span_le_advance
      rw [Nat.add_mul, Nat.one_mul] at enough
      have reached : now + delay ≤ s.deadline := by omega
      obtain ⟨delays, rest, sum⟩ := ih h.advance reached (by rw [deadline_advance]; omega)
      refine ⟨delay :: delays, run_of_lt early same rest, ?_⟩
      rw [List.sum_cons, sum, deadline_advance]
      omega
    · exact ⟨[], run_of_le le_rfl, (Nat.sub_self _).symm⟩

/-- **How a schedule runs out**, as the exchanges with it show. -/
structure RunsOut (settings : PollSettings) (started : Nat) (asked : List (Nat × Option Nat)) :
    Prop where
  /-- No delay is answered exactly from the deadline on. -/
  silent : ∀ time answer, (time, answer) ∈ asked →
    (answer = none ↔ started + settings.timeout ≤ time)
  /-- Each delay is positive, no longer than the longest and than the time left to the deadline. -/
  clipped : ∀ time delay, (time, some delay) ∈ asked →
    0 < delay ∧ delay ≤ settings.maxDelay ∧ time + delay ≤ started + settings.timeout
  /-- No delay is shorter than an earlier one, unless it is the last one and cut short at the
  deadline. -/
  monotone : ∀ before time delay after, asked = before ++ (time, some delay) :: after →
    (∀ t d, (t, some d) ∈ before → d ≤ delay) ∨
      (time + delay = started + settings.timeout ∧ ∀ t answer, (t, answer) ∈ after → answer = none)
  /-- From submission on, there are no more delays than of the first one fit into the timeout. -/
  few : (∀ exchange ∈ asked.head?, started ≤ exchange.1) →
    (given asked).length ≤ settings.timeoutMs ⌈/⌉ settings.firstDelay
  /-- So a schedule that is asked more often comes to its end. -/
  ends : (∀ exchange ∈ asked.head?, started ≤ exchange.1) →
    settings.timeoutMs ⌈/⌉ settings.firstDelay < asked.length → none ∈ asked.map Prod.snd
  /-- When the first question comes at submission and each other one at the end of a delay, the delays
  up to the end sum to the timeout. -/
  total : (∀ exchange ∈ asked.head?, exchange.1 = started) → ExactlyPaced asked →
    none ∈ asked.map Prod.snd → (given asked).sum = settings.timeout

/-- No delay of a paced schedule is shorter than an earlier one, unless it is the last one and ends at
the deadline. -/
theorem Steady.monotone (h : s.Steady) (paced : Paced (s.exchanges times))
    {before after : List (Nat × Option Nat)}
    (split : s.exchanges times = before ++ (time, some delay) :: after) :
    (∀ t d, (t, some d) ∈ before → d ≤ delay) ∨
      (time + delay = s.deadline ∧ ∀ t answer, (t, answer) ∈ after → answer = none) := by
  by_cases ends : time + delay = s.deadline
  · refine .inr ⟨ends, fun t answer mem => ?_⟩
    have later := paced.pairwise
    rw [split, List.pairwise_append, List.pairwise_cons] at later
    have reached : time + delay ≤ t := later.2.1.1 _ mem
    have asked : (t, answer) ∈ s.exchanges times := by
      rw [split]
      exact List.mem_append_right _ (List.mem_cons_of_mem _ mem)
    exact (answer_eq_none_iff asked).mpr (ends ▸ reached)
  · refine .inl fun t d mem => ?_
    have ordered := h.pairwise_le times
    rw [split, List.pairwise_append] at ordered
    exact (ordered.2.2 _ mem _ List.mem_cons_self d delay rfl rfl).resolve_right ends

/-- There are no more delays than of the first one fit into the milliseconds to the deadline. -/
theorem Steady.length_given_le (h : s.Steady) (paced : Paced (s.exchanges times)) {room : Nat}
    (first : ∀ exchange ∈ (s.exchanges times).head?,
      s.deadline ≤ exchange.1 + (Duration.ofMillis room).nanos) :
    (given (s.exchanges times)).length ≤ room ⌈/⌉ s.nextDelay := by
  cases times with
  | nil => exact Nat.zero_le _
  | cons now times =>
    have near : s.deadline ≤ now + (Duration.ofMillis room).nanos := by
      obtain ⟨_, _, eq⟩ := exists_exchanges_cons s now times
      rw [eq] at first
      exact first _ rfl
    have fits := h.length_given_mul_lt paced le_rfl (Duration.nanos_ofMillis_pos h.pos)
    generalize (given (s.exchanges (now :: times))).length = n at fits ⊢
    by_contra more
    obtain ⟨m, rfl⟩ := Nat.exists_eq_add_one_of_ne_zero (Nat.ne_zero_of_lt (Nat.lt_of_not_le more))
    have covered : room ≤ s.nextDelay * m :=
      (ceilDiv_le_iff_le_mul h.pos).mp (Nat.le_of_lt_succ (Nat.lt_of_not_le more))
    have covered : (Duration.ofMillis room).nanos ≤ m * (Duration.ofMillis s.nextDelay).nanos := by
      rw [Duration.nanos_ofMillis s.nextDelay, ← Nat.mul_assoc, Nat.mul_comm m]
      exact Duration.nanos_ofMillis_le covered
    rw [Nat.add_mul, Nat.one_mul] at fits
    omega

/-- **Schedules run out**, whatever the factor. -/
theorem runsOut_exchanges {settings : PollSettings} (started : Nat)
    (initial : 1 ≤ settings.initialDelayMs) (longest : 1 ≤ settings.maxDelayMs)
    (bounded : settings.maxDelayMs < 2 ^ 53) (times : List Nat)
    (paced : Paced ((start settings started).exchanges times)) :
    RunsOut settings started ((start settings started).exchanges times) := by
  have steady := steady_start started initial longest bounded
  have few (first : ∀ exchange ∈ ((start settings started).exchanges times).head?,
      started ≤ exchange.1) : (given ((start settings started).exchanges times)).length
        ≤ settings.timeoutMs ⌈/⌉ settings.firstDelay :=
    steady.length_given_le paced fun exchange mem => Nat.add_le_add_right (first exchange mem) _
  refine ⟨fun time answer => answer_eq_none_iff, fun time delay => steady.bounds,
    fun before time delay after => steady.monotone paced, few, fun first more => ?_,
    fun first exact ended => ?_⟩
  · by_contra unended
    have all : (given ((start settings started).exchanges times)).length
        = ((start settings started).exchanges times).length := by
      rw [given, List.reduceOption_length_eq_iff.mpr, List.length_map]
      exact fun answer mem => Option.isSome_iff_ne_none.mpr fun none => unended (none ▸ mem)
    exact Nat.not_le.mpr more (all ▸ few first)
  · cases times with
    | nil => exact absurd ended List.not_mem_nil
    | cons now times =>
      obtain ⟨_, _, eq⟩ := exists_exchanges_cons (start settings started) now times
      have now_eq : now = started := by
        rw [eq] at first
        exact first _ rfl
      rw [sum_given exact ended, now_eq]
      exact Nat.add_sub_cancel_left started settings.timeout

/-- A schedule of a second, asked again after each delay, runs out after three delays. -/
theorem runsOut_second :
    let second := start ⟨400, PollSettings.growth, 30000, 1000⟩ 0
    let times := [0, 400000000, 880000000, 1000000000]
    second.exchanges times = [(0, some 400000000), (400000000, some 480000000),
      (880000000, some 120000000), (1000000000, none)] ∧
    RunsOut ⟨400, PollSettings.growth, 30000, 1000⟩ 0 (second.exchanges times) := by
  intro second times
  have asked : second.exchanges times = [(0, some 400000000), (400000000, some 480000000),
      (880000000, some 120000000), (1000000000, none)] := by decide
  have paced : Paced (second.exchanges times) := by
    rw [asked]
    simp [Paced, OverBefore]
  exact ⟨asked, runsOut_exchanges 0 (by decide) (by decide) (by decide) _ paced⟩

end PollSchedule

end CertifiedCalls
