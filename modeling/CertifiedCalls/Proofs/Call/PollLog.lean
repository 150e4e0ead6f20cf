import CertifiedCalls.Proofs.Call.ReadingLog
import CertifiedCalls.Proofs.Workflow.Ending

/-! # Logs of polling
What polling for a request leaves in the record: readings one after the other, each from within the
schedule, until one of them decides the request or the deadline has passed. Its readings are in order
(`PollLog.orderly`), and it gives up no earlier than at the deadline, with the last reading not over
before (`PollLog.of_timedOut`). -/

namespace CertifiedCalls

namespace PollSchedule

variable {s next : PollSchedule} {now delay : Nat}

/-- A schedule has no further delay only from the deadline on. -/
theorem le_of_next_eq_none (h : s.next now = none) : s.deadline ≤ now := by
  rw [PollSchedule.next] at h
  split at h
  · exact nomatch h
  · rename_i late
    exact Nat.le_of_not_lt late

/-- A delay starts before the deadline and ends by it, and the deadline stays where it is. -/
theorem of_next_eq_some (h : s.next now = some (delay, next)) :
    now < s.deadline ∧ now + delay ≤ s.deadline ∧ next.started = s.started ∧
      next.deadline = s.deadline := by
  rw [PollSchedule.next] at h
  split at h
  · rename_i early
    obtain ⟨rfl, rfl⟩ := Prod.mk.inj (Option.some.inj h)
    refine ⟨early, ?_, rfl, rfl⟩
    have short := Nat.min_le_right (Duration.ofMillis s.nextDelay).nanos (s.deadline - now)
    omega
  · exact nomatch h

end PollSchedule

/-- A final status does not stand for want of time. -/
theorem Call.resolve_not_isTimeout {c : Call} {id : RequestId} {s : RequestStatus}
    {cause : CallFailure} (h : c.resolve id s = .error cause) : ¬ cause.IsTimeout := by
  cases s with
  | replied _ => exact nomatch h
  | _ =>
    obtain rfl := Except.error.inj h
    exact not_false

/-- What **polling** leaves in the record, from some time on. -/
inductive PollLog (k : Classifier) (c : Call) (caller : Nat) (id : RequestId) (started deadline : Nat) :
    Nat → List (Entry platform) → Option (Except CallFailure Bytes) → Nat → Prop
  /-- The readings have run out. -/
  | exhausted (t : Nat) : PollLog k c caller id started deadline t [] none t
  /-- The deadline has passed. -/
  | late {t : Nat} (late : deadline ≤ t) :
    PollLog k c caller id started deadline t []
      (some (.error (.timedOut id (Duration.millis ⟨t - started⟩)))) t
  /-- It passes during a reading. -/
  | lapsed {t v u : Nat} {log : List (Entry platform)} (later : t ≤ v) (soon : v ≤ deadline)
    (early : t < deadline) (reading : ReadingLog k c caller deadline id v log (.ok .lapsed) u) :
    PollLog k c caller id started deadline t (log ++ [⟨u, caller, .said (Call.lapsedEvent id)⟩])
      (some (.error (.timedOut id (Duration.millis ⟨u - started⟩)))) u
  /-- A reading fails. -/
  | failed {t v u : Nat} {log : List (Entry platform)} {cause : CallFailure} (later : t ≤ v)
    (soon : v ≤ deadline) (early : t < deadline)
    (reading : ReadingLog k c caller deadline id v log (.error cause) u) :
    PollLog k c caller id started deadline t log (some (.error cause)) u
  /-- A reading tells a final status. -/
  | decided {t v u : Nat} {log : List (Entry platform)} {s : RequestStatus} (later : t ≤ v)
    (soon : v ≤ deadline) (early : t < deadline)
    (reading : ReadingLog k c caller deadline id v log (.ok (.status s)) u)
    (final : s.isTerminal = true) :
    PollLog k c caller id started deadline t
      (log ++ [⟨u, caller, .said (Call.finalEvent id (Duration.millis ⟨u - started⟩))⟩])
      (some (c.resolve id s)) u
  /-- A reading decides nothing, and polling goes on. -/
  | again {t v u w : Nat} {log more : List (Entry platform)} {reading : Reading}
    {out : Option (Except CallFailure Bytes)} (later : t ≤ v) (soon : v ≤ deadline)
    (early : t < deadline) (read : ReadingLog k c caller deadline id v log (.ok reading) u)
    (ends : reading ≠ .lapsed) (clear : Clear k id log)
    (rest : PollLog k c caller id started deadline u more out w) :
    PollLog k c caller id started deadline t (log ++ more) out w

namespace PollLog

variable {k : Classifier} {c : Call} {caller started deadline t u : Nat} {id : RequestId}
  {log : List (Entry platform)}
  {out : Option (Except CallFailure Bytes)}

/-- Polling records events and readings, and submits nothing. -/
theorem unsubmitted (h : PollLog k c caller id started deadline t log out u) :
    Unasked PlatformRequest.IsSubmission log := by
  have reading {limit v u : Nat} {log : List (Entry platform)} {out : Except CallFailure Reading}
      (h : ReadingLog k c caller limit id v log out u) : Unasked PlatformRequest.IsSubmission log := by
    obtain ⟨number, rest, rfl, silent⟩ := h.exists_cons
    refine .cons (fun n r e => ?_) silent.unsubmitted
    obtain ⟨_, rfl⟩ := Happening.asked.inj e
    exact not_false
  induction h with
  | exhausted _ | late _ => exact List.forall_mem_nil _
  | failed _ _ _ read => exact reading read
  | lapsed _ _ _ read | decided _ _ _ read _ =>
    exact (reading read).append (.cons nofun (List.forall_mem_nil _))
  | again _ _ _ read _ _ _ ih => exact (reading read).append ih

/-- **The readings of polling are in order.** -/
theorem orderly (h : PollLog k c caller id started deadline t log out u) :
    Orderly k c.target id deadline log := by
  have reading {v u : Nat} {log : List (Entry platform)} {out : Except CallFailure Reading}
      (soon : v ≤ deadline) (h : ReadingLog k c caller deadline id v log out u) :
      Orderly k c.target id deadline log := by
    obtain ⟨number, rest, rfl, silent⟩ := h.exists_cons
    exact .of_reading soon silent.unread
  -- On the log: a reading after which polling goes on leaves nothing open.
  induction h with
  | exhausted _ | late _ => exact .of_unasked (List.forall_mem_nil _)
  | failed _ soon _ read => exact reading soon read
  | lapsed _ soon _ read | decided _ soon _ read _ =>
    exact (reading soon read).append_unasked (.cons nofun (List.forall_mem_nil _))
  | again _ soon _ read _ clear _ ih => exact (reading soon read).append clear ih

/-- From the deadline on nothing is read. -/
theorem eq_nil_of_le (h : PollLog k c caller id started deadline t log out u) (late : deadline ≤ t) :
    log = [] := by
  cases h with
  | exhausted _ | late _ => rfl
  | lapsed _ _ early _ | failed _ _ early _ | decided _ _ early _ _ | again _ _ early _ _ _ _ =>
    exact absurd early (Nat.not_lt.mpr late)

/-- A reply is what a certificate that was read tells. -/
theorem tells {reply : Bytes} (h : PollLog k c caller id started deadline t log (some (.ok reply)) u) :
    Tells log id (.replied reply) := by
  generalize ends : some (Except.ok (ε := CallFailure) reply) = out at h
  induction h with
  | exhausted _ | late _ | lapsed _ _ _ _ | failed _ _ _ _ => exact nomatch ends
  | decided _ _ _ read _ =>
    obtain rfl := Call.eq_replied_of_resolve (Option.some.inj ends).symm
    exact read.tells.mono fun _ => List.mem_append_left _
  | again _ _ _ _ _ _ _ ih => exact (ih ends).mono fun _ => List.mem_append_right _

/-- **Polling gives up no earlier than at the deadline**, and where it was entered before the deadline,
its last reading was not over before. -/
theorem of_timedOut {id' : RequestId} {elapsed : Nat}
    (h : PollLog k c caller id started deadline t log (some (.error (.timedOut id' elapsed))) u) :
    id' = id ∧ elapsed = Duration.millis ⟨max deadline t - started⟩ ∧
      (t < deadline → LastReadUntil caller c.target id deadline log) := by
  generalize ends : some (Except.error (α := Bytes) (CallFailure.timedOut id' elapsed)) = out at h
  -- On the log. Only the last reading before the end matters, and each ends by the deadline.
  induction h with
  | exhausted _ => exact nomatch ends
  | @late t late =>
    obtain ⟨rfl, rfl⟩ := CallFailure.timedOut.inj (Except.error.inj (Option.some.inj ends))
    refine ⟨rfl, by rw [Nat.max_eq_right late], fun early => absurd early (Nat.not_lt.mpr late)⟩
  | lapsed later soon early read =>
    obtain ⟨rfl, rfl⟩ := CallFailure.timedOut.inj (Except.error.inj (Option.some.inj ends))
    obtain ⟨rfl, incomplete⟩ := read.of_lapsed soon
    obtain ⟨number, rest, rfl, silent⟩ := read.exists_cons
    refine ⟨rfl, by rw [Nat.max_eq_left (Nat.le_of_lt early)], fun _ => ?_⟩
    refine ⟨[], _, number, rest ++ [_], rfl,
      silent.unread.append (.cons nofun (List.forall_mem_nil _)), .inr ⟨?_, by simp⟩⟩
    exact List.forall_mem_append.mpr ⟨(List.forall_mem_cons.mp incomplete).2,
      List.forall_mem_singleton.mpr not_false⟩
  | failed _ _ _ read =>
    obtain rfl := Except.error.inj (Option.some.inj ends)
    exact absurd trivial read.not_isTimeout
  | decided _ _ _ read _ =>
    exact absurd trivial (Call.resolve_not_isTimeout (Option.some.inj ends).symm)
  | @again t v u w log more reading out later soon early read lasting clear rest ih =>
    obtain ⟨rfl, e, last⟩ := ih ends
    have inTime := read.inTime soon
    refine ⟨rfl, ?_, fun _ => ?_⟩
    · rw [e, Nat.max_eq_left inTime, Nat.max_eq_left (Nat.le_of_lt early)]
    · rcases Nat.lt_or_eq_of_le inTime with before | rfl
      · exact (last before).append_left log
      -- Nothing is read after a reading that ends at the deadline.
      · obtain rfl := rest.eq_nil_of_le (Nat.le_refl _)
        have completed := read.completedAt (by simpa using lasting)
        obtain ⟨number, after, rfl, silent⟩ := read.exists_cons
        rw [List.append_nil]
        refine ⟨[], v, number, after, rfl, silent.unread, .inl ((completedAt_cons ?_).mp completed)⟩
        exact not_false

end PollLog

namespace Course

open Workflow (atEnd atEnd_eq_done atEnd_eq_unfinished Finishes)

/-- Looking for a status in a certificate finishes. -/
theorem finishes_certifiedStatus (c : Call) (k : Classifier) (limit : Option Nat) (id : RequestId)
    (certificate : Bytes) : (c.certifiedStatus k limit id certificate).run.Finishes := by
  refine .run_bind ?_ fun told => ?_
  · refine .run_lift_bind (fun _ => trivial) fun outcome => ?_
    match outcome with
    | .known _ | .lapsed => trivial
    | .granted =>
      refine .run_lift_bind trivial fun _ => .run_lift_bind (fun _ _ => trivial) fun answer => ?_
      match answer with
      | some (.ok _) | some (.error _) | none => exact .run_lift_bind trivial fun _ => trivial
  · match told with
    | none => trivial
    | some key =>
      refine .run_lift_bind (.ask _) fun opened => ?_
      match opened with
      | .error _ => trivial
      | .ok tree =>
        simp only
        split <;> trivial

/-- So does a reading. -/
theorem finishes_readStatus (c : Call) (k : Classifier) (limit : Nat) (id : RequestId) :
    (c.readStatus k limit id).run.Finishes := by
  refine .run_lift_bind (fun _ _ => trivial) fun answer => ?_
  match answer with
  | none => trivial
  | some (.ok certificate) => exact finishes_certifiedStatus c k (some limit) id certificate
  | some (.error failure) =>
    simp only
    split
    · exact .run_lift_bind trivial fun _ => trivial
    · trivial

/-- Giving a request up tells how long it took. -/
theorem of_timeOut_end {schedule : PollSchedule} {caller t u : Nat} {id : RequestId}
    {acts : List (Act platform)} {out : Option (Except CallFailure Bytes)}
    (h : Course caller (Call.timeOut schedule id).run t acts (atEnd out) u) :
    acts = [] ∧ u = t ∧ out = some (.error (.timedOut id (schedule.elapsed t).millis)) := by
  obtain ⟨_, _, _, now, rfl, clock, h₁⟩ := of_lift_bind_end .now h
  obtain ⟨rfl, rfl, rfl⟩ := of_now clock
  obtain ⟨rfl, e, rfl⟩ := h₁.of_done
  exact ⟨rfl, rfl, atEnd_eq_done e⟩

/-- What polling leaves in the record, when certificates are opened at once. -/
theorem pollLog_of_poll {k : Classifier} {c : Call} {caller t u : Nat} {id : RequestId} {readings : Nat}
    {schedule : PollSchedule} {acts : List (Act platform)} {out : Option (Except CallFailure Bytes)}
    (h : Course caller (c.poll k id readings schedule).run t acts (atEnd out) u)
    (prompt : OpenedAtOnce (kept acts)) :
    PollLog k c caller id schedule.started schedule.deadline t (kept acts) out u := by
  -- On the readings, for all schedules: the later readings have the same deadline.
  induction readings generalizing schedule t acts with
  | zero =>
    obtain ⟨rfl, e, rfl⟩ := h.of_unfinished
    obtain rfl := atEnd_eq_unfinished e
    exact .exhausted _
  | succ readings ih =>
    obtain ⟨_, _, _, now, rfl, clock, h₁⟩ := of_lift_bind_end .now h
    obtain ⟨rfl, rfl, rfl⟩ := of_now clock
    rw [List.nil_append] at prompt ⊢
    cases next : schedule.next now with
    | none =>
      rw [next] at h₁
      obtain ⟨rfl, rfl, rfl⟩ := of_timeOut_end h₁
      exact .late (PollSchedule.le_of_next_eq_none next)
    | some taken =>
      obtain ⟨delay, rest⟩ := taken
      rw [next] at h₁
      obtain ⟨early, soon, started, deadline⟩ := PollSchedule.of_next_eq_some next
      obtain ⟨_, _, _, _, rfl, pause, h₂⟩ := of_lift_bind_end (.pause delay) h₁
      obtain ⟨rfl, rfl⟩ := of_pause pause
      rw [List.nil_append] at prompt ⊢
      have later := Nat.le_add_right now delay
      rcases of_except_bind_end h₂ with ⟨_, unfinished⟩ | ⟨cause, rfl, failed⟩ |
        ⟨reading, as, bs, v, rfl, read, h₃⟩
      · exact absurd rfl ((finishes_readStatus c k _ id).not_unfinished unfinished)
      · exact .failed later soon early (readingLog_of_readStatus failed prompt)
      · rw [kept_append] at prompt ⊢
        have log := readingLog_of_readStatus read prompt.left
        have again (h : Course caller (c.poll k id readings rest).run v bs (atEnd out) u) :
            PollLog k c caller id schedule.started schedule.deadline v (kept bs) out u := by
          rw [← started, ← deadline]
          exact ih h prompt.right
        match reading with
        | .missed => exact .again later soon early log (by simp) log.clear_of_missed (again h₃)
        | .lapsed =>
          obtain ⟨_, _, _, _, rfl, said, h₄⟩ := of_lift_bind_end (.say _) h₃
          obtain ⟨rfl, rfl⟩ := of_say said
          obtain ⟨rfl, rfl, rfl⟩ := of_timeOut_end h₄
          exact .lapsed later soon early log
        | .status s =>
          simp only at h₃
          split at h₃
          · rename_i final
            obtain ⟨_, _, _, now, rfl, clock, h₄⟩ := of_lift_bind_end .now h₃
            obtain ⟨rfl, rfl, rfl⟩ := of_now clock
            obtain ⟨_, _, _, _, rfl, said, h₅⟩ := of_lift_bind_end (.say _) h₄
            obtain ⟨rfl, rfl⟩ := of_say said
            obtain ⟨rfl, e, rfl⟩ := h₅.of_done
            obtain rfl := atEnd_eq_done e
            exact .decided later soon early log final
          · rename_i pending
            exact .again later soon early log (by simp) (log.clear_of_status pending) (again h₃)

end Course

end CertifiedCalls
