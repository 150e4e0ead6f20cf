import CertifiedCalls.Proofs.Call.Authentic
import CertifiedCalls.Proofs.Call.UpdateLog

/-! # Disciplined updates
An update that ends has been submitted **once**, or not at all when its arguments are not accepted; it
has read the state of its own request only, in order and by its deadline; and when it gives up, it has
done so no earlier than at the deadline, up to which it had a reading under way (`update_disciplined`).
This holds when it runs alone and when it runs side by side with others. -/

namespace CertifiedCalls

variable {σ β : Type}

/-- The entries of an update that has ended are **disciplined**. -/
structure Disciplined (a : Agent) (c : Call) (caller : Nat) (mapper : Mapper Value β)
    (log : List (Entry platform)) (out : Option (Except FailedCall β)) : Prop where
  /-- Arguments that are not accepted are not sent, and nothing else is asked. -/
  refused : c.request.check c.args ≠ none → Unasked (fun _ => True) log
  /-- Arguments that are accepted are submitted first, and never again. -/
  submitted : c.request.check c.args = none → ∃ arg t n rest, c.encode a.config.layout = .ok arg ∧
    log = ⟨t, caller, .asked n (.update c.target (wireMethodName c.method) arg)⟩ :: rest ∧
    Unasked PlatformRequest.IsSubmission rest
  /-- Each reading is one of the request that the submission was answered with, starts by the deadline,
  and comes when all before it is over and nothing has settled the request. -/
  reading : ∀ front t caller' n r back, log = front ++ ⟨t, caller', .asked n r⟩ :: back →
    r.IsReading → ∃ arg since id, Submitted c caller arg since id front ∧
      r = .readState c.target id ∧ t ≤ since + a.config.poll.timeout ∧ Clear a.classifier id front
  /-- A request is given up at the deadline, or where polling was entered if that was later. In the
  former case the last reading was not over before. It may also be the mapper that says so, of a
  reply that a certificate tells. -/
  timedOut : ∀ id elapsed, out = some (.error (c.failed (.timedOut id elapsed))) →
    (∃ arg since id' reply v, Submitted c caller arg since id' log ∧ Tells log id' (.replied reply) ∧
      c.response.decode reply = .ok v ∧ mapper 0 v = .error (.timedOut id elapsed)) ∨
    ∃ arg since lead, Submitted c caller arg since id log ∧
      PollingEntered c caller id (since + lead) log ∧
      elapsed = max a.config.poll.timeoutMs (Duration.millis ⟨lead⟩) ∧
      (lead < a.config.poll.timeout →
        LastReadUntil caller c.target id (since + a.config.poll.timeout) log)

/-- The milliseconds of the later of the deadline and another time. -/
theorem PollSettings.millis_max_timeout (s : PollSettings) (lead : Nat) :
    Duration.millis ⟨max s.timeout lead⟩ = max s.timeoutMs (Duration.millis ⟨lead⟩) := by
  simp only [Duration.millis, timeout, Duration.ofMillis]
  omega

/-- Entries that only record events ask nothing. -/
theorem Announcing.unasked {log : List (Entry platform)} (h : Announcing log)
    (kind : PlatformRequest → Prop) : Unasked kind log := by
  intro entry mem n r e
  obtain ⟨event, said⟩ := h entry mem
  exact nomatch said.symm.trans e

/-- They complete no reading. -/
theorem Announcing.incomplete {log : List (Entry platform)} (h : Announcing log) : Incomplete log := by
  intro entry mem
  obtain ⟨event, said⟩ := h entry mem
  rw [said]
  exact not_false

namespace SubmitLog

variable {a : Agent} {c : Call} {caller t u : Nat} {arg : Bytes} {log after : List (Entry platform)}
  {reply : Option (Except CallFailure Bytes)}

/-- A submission comes first, and is not made again. -/
theorem exists_cons (h : SubmitLog a c caller arg t log reply u) :
    ∃ n rest, log = ⟨t, caller, .asked n (.update c.target (wireMethodName c.method) arg)⟩ :: rest ∧
      Unasked PlatformRequest.IsSubmission rest := by
  cases h with
  | refused number failure => exact ⟨number, _, rfl, .cons nofun (List.forall_mem_nil _)⟩
  | taken number _ rest => exact ⟨number, _, rfl, .cons nofun rest.unsubmitted⟩

/-- Each reading is one of the request that the submission was answered with, and in order. -/
theorem reading (h : SubmitLog a c caller arg t log reply u) (announcing : Announcing after)
    {front back : List (Entry platform)} {v caller' n : Nat} {r : PlatformRequest}
    (split : log ++ after = front ++ ⟨v, caller', .asked n r⟩ :: back) (reads : r.IsReading) :
    ∃ id, Submitted c caller arg t id front ∧ r = .readState c.target id ∧
      v ≤ t + a.config.poll.timeout ∧ Clear a.classifier id front := by
  have submission {w number : Nat} {answer : Except TransportFailure Submission} :
      Unasked PlatformRequest.IsReading
        [⟨t, caller, .asked number (.update c.target (wireMethodName c.method) arg)⟩,
          ⟨w, caller, .answered (I := platform) number
            (.update c.target (wireMethodName c.method) arg) answer⟩] := by
    refine .cons (fun n r e => ?_) (.cons nofun (List.forall_mem_nil _))
    obtain ⟨_, rfl⟩ := Happening.asked.inj e
    exact not_false
  cases h with
  | refused number failure =>
    exact absurd reads ((submission.append (announcing.unasked _)).not_split split)
  | @taken w _ id answer rest _ number _ await =>
    -- A reading comes after the submission and its answer, so these are in front of it.
    rw [List.append_assoc] at split
    rcases split_of_append split with ⟨more, first, _⟩ | ⟨more, rfl, second⟩
    · exact absurd reads (submission.not_split first)
    · have orderly := await.orderly.append_unasked (announcing.unasked _)
      obtain ⟨same, soon, clear⟩ := orderly more v caller' n r back second reads
      refine ⟨id, ⟨number, w, answer, by simp, by simp⟩, same, soon, ?_⟩
      refine Clear.append (.of_unasked ?_ submission) clear
      exact List.forall_mem_cons.mpr ⟨not_false, List.forall_mem_singleton.mpr not_false⟩

/-- A reply is what a certificate tells of the request that the submission was answered with. -/
theorem tells {bs : Bytes} (h : SubmitLog a c caller arg t log (some (.ok bs)) u) :
    ∃ id, Submitted c caller arg t id log ∧ Tells log id (.replied bs) := by
  cases h with
  | @taken w _ id answer rest _ number _ await =>
    exact ⟨id, ⟨number, w, answer, by simp, by simp⟩,
      await.tells.mono fun _ => List.mem_append_right _⟩

/-- A request is given up no earlier than at the deadline, and where polling was entered before it, the
last reading was not over before. -/
theorem of_timedOut {id : RequestId} {elapsed : Nat}
    (h : SubmitLog a c caller arg t log (some (.error (.timedOut id elapsed))) u) :
    ∃ lead, Submitted c caller arg t id log ∧ PollingEntered c caller id (t + lead) log ∧
      elapsed = max a.config.poll.timeoutMs (Duration.millis ⟨lead⟩) ∧
      (lead < a.config.poll.timeout →
        LastReadUntil caller c.target id (t + a.config.poll.timeout) log) := by
  generalize ends : some (Except.error (α := Bytes) (CallFailure.timedOut id elapsed)) = out at h
  cases h with
  | refused number failure =>
    have same := Except.error.inj (Option.some.inj ends)
    exact absurd (same ▸ trivial) (a.classifier.not_isTimeout failure)
  | @taken w _ id' answer rest _ number later await =>
    subst ends
    obtain ⟨rfl, v, after, entered, e, last⟩ := await.of_timedOut
    refine ⟨v - t, ⟨number, w, answer, by simp, by simp⟩, ?_, ?_, fun early => ?_⟩
    · rw [Nat.add_sub_cancel' (Nat.le_trans later after)]
      exact entered.mono fun _ => List.mem_append_right _
    · rw [e, ← Nat.sub_max_sub_right, Nat.add_sub_cancel_left, PollSettings.millis_max_timeout]
    · exact (last (by omega)).append_left _

end SubmitLog

/-- A call that is concluded for want of time has given up, or the mapper says so of a reply. -/
theorem Call.of_conclude_timedOut {c : Call} {mapper : Mapper Value β}
    {reply : Except CallFailure Bytes} {id : RequestId} {elapsed : Nat}
    (h : c.conclude mapper reply = .error (c.failed (.timedOut id elapsed))) :
    reply = .error (.timedOut id elapsed) ∨
      ∃ bs v, reply = .ok bs ∧ c.response.decode bs = .ok v ∧
        mapper 0 v = .error (.timedOut id elapsed) := by
  have made : c.made mapper reply = .error (.timedOut id elapsed) := by
    rw [conclude] at h
    cases m : c.made mapper reply with
    | ok r =>
      rw [m] at h
      exact nomatch h
    | error cause =>
      rw [m] at h
      have same := congrArg FailedCall.cause (Except.error.inj h)
      rw [show cause = .timedOut id elapsed from same]
  cases reply with
  | error cause =>
    rw [made_error] at made
    exact .inl (congrArg Except.error (Except.error.inj made))
  | ok bs =>
    cases decoded : c.response.decode bs with
    | error fault =>
      rw [made_of_fault decoded] at made
      exact nomatch Except.error.inj made
    | ok v =>
      rw [made_of_decode decoded] at made
      exact .inr ⟨bs, v, rfl, decoded, made⟩

/-- What an update that has ended leaves in the record is disciplined, when certificates are opened at
once. -/
theorem disciplined_of_course {a : Agent} {c : Call} {caller t u : Nat} {mapper : Mapper Value β}
    {acts : List (Act platform)} {out : Option (Except FailedCall β)}
    (h : Course caller (a.update c mapper) t acts (Workflow.atEnd out) u)
    (prompt : OpenedAtOnce (kept acts)) : Disciplined a c caller mapper (kept acts) out := by
  rcases Course.submitLog_of_update h prompt with ⟨m, refused, announcing, rfl⟩ |
    ⟨arg, log, after, reply, v, encoded, split, submit, announcing, rfl⟩
  · exact {
      refused := fun _ => announcing.unasked _
      submitted := fun accepted => nomatch accepted.symm.trans refused
      reading := fun front t caller' n r back split reads =>
        absurd reads ((announcing.unasked _).not_split split)
      timedOut := fun id elapsed e => nomatch
        congrArg FailedCall.cause (Except.error.inj (Option.some.inj e)) }
  · have accepted : c.request.check c.args = none := by
      cases accepted : c.request.check c.args with
      | none => rfl
      | some m =>
        rw [Call.encode_of_check_eq_some accepted] at encoded
        exact nomatch encoded
    have more {entry : Entry platform} (mem : entry ∈ log) : entry ∈ kept acts := by
      rw [split]
      exact List.mem_append_left _ mem
    exact {
      refused := fun refused => absurd accepted refused
      submitted := fun _ => by
        obtain ⟨n, rest, rfl, unsubmitted⟩ := submit.exists_cons
        exact ⟨arg, t, n, rest ++ after, encoded, split, unsubmitted.append (announcing.unasked _)⟩
      reading := fun front v caller' n r back read reads => by
        obtain ⟨id, reading⟩ := submit.reading announcing (split.symm.trans read) reads
        exact ⟨arg, t, id, reading⟩
      timedOut := fun id elapsed e => by
        obtain ⟨r, rfl, concluded⟩ := Option.map_eq_some_iff.mp e
        rcases Call.of_conclude_timedOut concluded with rfl | ⟨bs, v, rfl, decoded, mapped⟩
        · obtain ⟨lead, submitted, entered, same, last⟩ := submit.of_timedOut
          refine .inr ⟨arg, t, lead, submitted.mono fun _ => more, entered.mono fun _ => more, same,
            fun early => ?_⟩
          rw [split]
          exact (last early).append_right (announcing.unasked _) announcing.incomplete
        · obtain ⟨id', submitted, tells⟩ := submit.tells
          exact .inl ⟨arg, t, id', bs, v, submitted.mono fun _ => more, tells.mono fun _ => more,
            decoded, mapped⟩ }

/-! ### Runs -/

/-- **Updates are disciplined**, whatever transport and verifier they run with, when they run alone and
when they run side by side with others. -/
theorem update_disciplined (a : Agent) (verify : Verifier) (transport : Environment platform σ)
    (w : World platform σ) :
    (∀ (c : Call) (mapper : Mapper Value β),
      let ran := (a.update c mapper).run (verifiedBy verify transport) w
      ∃ log, ran.1.record = w.record ++ log ∧ Disciplined a c 0 mapper log ran.2) ∧
    ∀ (calls : List (Nat × Call × Mapper Value β)) (limit steps : Nat)
      (isFinal : Except FailedCall β → Bool),
      let pool := (Pool.start w limit (a.updates calls)).run (verifiedBy verify transport) isFinal steps
      ∃ log, pool.world.record = w.record ++ log ∧
        ∀ (e : Ended (Except FailedCall β)) (delay : Nat) (c : Call) (mapper : Mapper Value β),
          e ∈ pool.ended → calls[e.id]? = some (delay, c, mapper) →
          Disciplined a c e.id mapper (log.filter fun entry => entry.caller = e.id) e.result := by
  have atOnce : AnswersAtOnce PlatformRequest.IsOpening (verifiedBy verify transport) := by
    intro state now r opening
    cases r with
    | openCertificate _ _ _ => rfl
    | _ => exact opening.elim
  constructor
  · intro c mapper ran
    obtain ⟨acts, passage, course⟩ := Workflow.run_course (verifiedBy verify transport) w
      (a.update c mapper)
    refine ⟨kept acts, passage.record, ?_⟩
    have prompt := (Workflow.run_prompt atOnce w (a.update c mapper)).openedAtOnce passage.record 0
    rw [own_of_all course.caller_eq] at prompt
    exact disciplined_of_course course prompt
  · intro calls limit steps isFinal pool
    obtain ⟨trace, explained⟩ := Pool.explained_run (verifiedBy verify transport) isFinal steps w limit
      (a.updates calls)
    refine ⟨kept trace, explained.passage.record, fun e delay c mapper ended found => ?_⟩
    have prompt := (Pool.run_prompt atOnce isFinal steps w limit (a.updates calls)).openedAtOnce
      explained.passage.record e.id
    obtain ⟨p, since, at_id, course⟩ := explained.ended e ended
    rw [Agent.updates, List.getElem?_map, found] at at_id
    obtain rfl := Option.some.inj at_id
    -- The delay in front of the update leaves nothing in the record.
    obtain ⟨_, as, bs, v, split, pause, course⟩ := Course.of_finishes_bind_end (.pause delay) course
    obtain ⟨rfl, _⟩ := Course.of_pause pause
    rw [List.nil_append] at split
    rw [← split] at course
    rw [← kept_own]
    exact disciplined_of_course course prompt

/-- An update that starts after a while, is accepted, and is given up while its only reading is under
way. -/
theorem update_disciplined_lapsing :
    let id : RequestId := ⟨List.replicate 32 7, rfl⟩
    let verify : Verifier := fun _ _ _ => .error (.ofMessage "bad certificate")
    let transport : Environment platform Unit := fun _ _ r =>
      match r with
      | .query _ _ _ => ⟨(), 0, .error (.ofMessage "no")⟩
      | .update _ _ _ => ⟨(), 2000000, .ok ⟨id, .accepted⟩⟩
      | .readState _ _ => ⟨(), 9000000, .ok [1]⟩
      | .rootKey => ⟨(), 2000000, .ok [9]⟩
      | .openCertificate _ _ _ => ⟨(), 0, .error (.ofMessage "no")⟩
    let a : Agent :=
      ⟨{ AgentConfig.brisk with poll := ⟨10, PollSettings.growth, 100, 15⟩ }, .messages, 10⟩
    let c : Call := ⟨⟨[4], by decide⟩, "stop", .null, .null, .null⟩
    let pool := (Pool.start (.start () none) 1 (a.updates [(3000000, c, Mapper.identity)])).run
      (verifiedBy verify transport) (fun _ => false) 9
    let e : Ended (Except FailedCall Value) := ⟨0, 18000000, some (.error (c.failed (.timedOut id 15)))⟩
    e ∈ pool.ended ∧ ∃ log, pool.world.record = [] ++ log ∧
      Disciplined a c 0 .identity (log.filter fun entry => entry.caller = 0) e.result := by
  intro id verify transport a c pool e
  have ended : pool.ended = [e] := by
    simp only [pool, e, a, c, transport, verify, id]
    rfl
  have mem : e ∈ pool.ended := ended ▸ List.mem_singleton.mpr rfl
  obtain ⟨log, record, disciplined⟩ := (update_disciplined (β := Value) a verify transport
    (.start () none)).2 [(3000000, c, Mapper.identity)] 1 9 (fun _ => false)
  exact ⟨mem, log, record, disciplined e 3000000 c .identity mem rfl⟩

end CertifiedCalls
