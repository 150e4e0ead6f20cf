import CertifiedCalls.Proofs.Call.PollLog

/-! # Logs of updates
What an update leaves in the record: its submission, what the answer to it leads to, and how the reply
is made into a result (`Course.submitLog_of_update`). -/

namespace CertifiedCalls

variable {β : Type}

/-- What stands in the record between the answer to a submission and polling. -/
inductive LeadLog (k : Classifier) (c : Call) (caller : Nat) (id : RequestId) (t : Nat) :
    UpdateAnswer → List (Entry platform) → Nat → Prop
  /-- A certificate says that the request is still under way. -/
  | pending {certificate : Bytes} {log : List (Entry platform)} {s : RequestStatus} {u : Nat}
    (opening : OpeningLog k c caller none id certificate t log (.ok (.status s)) u)
    (pending : ¬ s.isTerminal = true) :
    LeadLog k c caller id t (.certified certificate)
      (log ++ [⟨u, caller, .said (c.pendingEvent id)⟩]) u
  /-- The request was accepted. -/
  | accepted : LeadLog k c caller id t .accepted [⟨t, caller, .said (c.acceptedEvent id)⟩] t

/-- What the answer to a submission leads to. -/
inductive AwaitLog (k : Classifier) (c : Call) (caller : Nat) (id : RequestId)
    (started deadline t : Nat) :
    UpdateAnswer → List (Entry platform) → Option (Except CallFailure Bytes) → Nat → Prop
  /-- The certificate that came with it is of no use. -/
  | failed {certificate : Bytes} {log : List (Entry platform)} {cause : CallFailure} {u : Nat}
    (opening : OpeningLog k c caller none id certificate t log (.error cause) u) :
    AwaitLog k c caller id started deadline t (.certified certificate) log (some (.error cause)) u
  /-- The certificate that came with it says a final status. -/
  | decided {certificate : Bytes} {log : List (Entry platform)} {s : RequestStatus} {u : Nat}
    (opening : OpeningLog k c caller none id certificate t log (.ok (.status s)) u) :
    AwaitLog k c caller id started deadline t (.certified certificate) log (some (c.resolve id s)) u
  /-- It was unexpected. -/
  | unexpected (status : Nat) :
    AwaitLog k c caller id started deadline t (.unexpected status) []
      (some (.error (c.unexpectedFailure id status))) t
  /-- The request is polled for. -/
  | polled {answer : UpdateAnswer} {front back : List (Entry platform)} {v u : Nat}
    {out : Option (Except CallFailure Bytes)} (lead : LeadLog k c caller id t answer front v)
    (poll : PollLog k c caller id started deadline v back out u) :
    AwaitLog k c caller id started deadline t answer (front ++ back) out u

/-- What a submission leaves in the record. -/
inductive SubmitLog (a : Agent) (c : Call) (caller : Nat) (arg : Bytes) (t : Nat) :
    List (Entry platform) → Option (Except CallFailure Bytes) → Nat → Prop
  /-- It fails. -/
  | refused {v : Nat} (number : Nat) (failure : TransportFailure) :
    SubmitLog a c caller arg t
      [⟨t, caller, .asked number (.update c.target (wireMethodName c.method) arg)⟩,
        ⟨v, caller, .answered (I := platform) number
          (.update c.target (wireMethodName c.method) arg) (.error failure)⟩]
      (some (.error (a.classifier.classify failure))) v
  /-- It is taken under a request. -/
  | taken {v u : Nat} {id : RequestId} {answer : UpdateAnswer} {log : List (Entry platform)}
    {out : Option (Except CallFailure Bytes)} (number : Nat) (later : t ≤ v)
    (rest : AwaitLog a.classifier c caller id t (t + a.config.poll.timeout) v answer log out u) :
    SubmitLog a c caller arg t
      ([⟨t, caller, .asked number (.update c.target (wireMethodName c.method) arg)⟩,
        ⟨v, caller, .answered (I := platform) number
          (.update c.target (wireMethodName c.method) arg) (.ok ⟨id, answer⟩)⟩] ++ log) out u

namespace LeadLog

variable {k : Classifier} {c : Call} {caller t u : Nat} {id : RequestId} {answer : UpdateAnswer}
  {log : List (Entry platform)}

/-- Polling is not entered before the answer came. -/
theorem later (h : LeadLog k c caller id t answer log u) : t ≤ u := by
  cases h with
  | pending opening _ => exact opening.later
  | accepted => exact Nat.le_refl _

/-- Nothing is asked about the call before polling. -/
theorem silent (h : LeadLog k c caller id t answer log u) :
    Unasked PlatformRequest.ConcernsCall log := by
  cases h with
  | pending opening _ => exact opening.silent.append (.cons nofun (List.forall_mem_nil _))
  | accepted => exact .cons nofun (List.forall_mem_nil _)

/-- Nothing is settled before polling. -/
theorem clear (h : LeadLog k c caller id t answer log u) : Clear k id log := by
  refine .of_unasked ?_ h.silent.unread
  cases h with
  | pending opening pending =>
    exact List.forall_mem_append.mpr ⟨opening.unsettled pending,
      List.forall_mem_singleton.mpr not_false⟩
  | accepted => exact List.forall_mem_singleton.mpr not_false

/-- Polling is entered next. -/
theorem entered (h : LeadLog k c caller id t answer log u) : PollingEntered c caller id u log := by
  cases h with
  | pending _ _ => exact .inr (List.mem_append_right _ List.mem_cons_self)
  | accepted => exact .inl List.mem_cons_self

end LeadLog

namespace AwaitLog

variable {k : Classifier} {c : Call} {caller started deadline t u : Nat} {id : RequestId}
  {answer : UpdateAnswer} {log : List (Entry platform)} {out : Option (Except CallFailure Bytes)}

/-- Nothing is submitted again. -/
theorem unsubmitted (h : AwaitLog k c caller id started deadline t answer log out u) :
    Unasked PlatformRequest.IsSubmission log := by
  cases h with
  | failed opening | decided opening => exact opening.silent.unsubmitted
  | unexpected _ => exact List.forall_mem_nil _
  | polled lead poll => exact lead.silent.unsubmitted.append poll.unsubmitted

/-- The readings are in order. -/
theorem orderly (h : AwaitLog k c caller id started deadline t answer log out u) :
    Orderly k c.target id deadline log := by
  cases h with
  | failed opening | decided opening => exact .of_unasked opening.silent.unread
  | unexpected _ => exact .of_unasked (List.forall_mem_nil _)
  | polled lead poll => exact (Orderly.of_unasked lead.silent.unread).append lead.clear poll.orderly

/-- A reply is what a certificate tells. -/
theorem tells {reply : Bytes}
    (h : AwaitLog k c caller id started deadline t answer log (some (.ok reply)) u) :
    Tells log id (.replied reply) := by
  generalize ends : some (Except.ok (ε := CallFailure) reply) = out at h
  cases h with
  | failed _ | unexpected _ => exact nomatch ends
  | decided opening =>
    obtain rfl := Call.eq_replied_of_resolve (Option.some.inj ends).symm
    exact opening.tells
  | polled lead poll =>
    subst ends
    exact poll.tells.mono fun _ => List.mem_append_right _

/-- A request is given up no earlier than at the deadline, and where polling was entered before it, the
last reading was not over before. -/
theorem of_timedOut {id' : RequestId} {elapsed : Nat}
    (h : AwaitLog k c caller id started deadline t answer log
      (some (.error (.timedOut id' elapsed))) u) :
    id' = id ∧ ∃ v, t ≤ v ∧ PollingEntered c caller id v log ∧
      elapsed = Duration.millis ⟨max deadline v - started⟩ ∧
      (v < deadline → LastReadUntil caller c.target id deadline log) := by
  generalize ends : some (Except.error (α := Bytes) (CallFailure.timedOut id' elapsed)) = out at h
  cases h with
  | failed opening =>
    obtain rfl := Except.error.inj (Option.some.inj ends)
    exact absurd trivial opening.not_isTimeout
  | decided _ => exact absurd trivial (Call.resolve_not_isTimeout (Option.some.inj ends).symm)
  | unexpected _ => exact nomatch Except.error.inj (Option.some.inj ends)
  | @polled _ front _ v _ _ lead poll =>
    subst ends
    obtain ⟨rfl, e, last⟩ := poll.of_timedOut
    exact ⟨rfl, v, lead.later, lead.entered.mono fun _ => List.mem_append_left _, e,
      fun early => (last early).append_left front⟩

end AwaitLog

namespace Call

/-- Arguments that the schema does not accept have no octets. -/
theorem encode_of_check_eq_some {c : Call} {m : Mismatch} (h : c.request.check c.args = some m)
    (layout : Layout) : c.encode layout = .error m.requestFailure := by
  rw [encode, Schema.encode, h]
  rfl

/-- Arguments that it accepts have. -/
theorem exists_encode_of_check_eq_none {c : Call} (h : c.request.check c.args = none)
    (layout : Layout) : ∃ arg, c.encode layout = .ok arg := by
  rw [encode, Schema.encode, h]
  exact ⟨_, rfl⟩

/-- What a reply is **made into**: it is decoded and mapped. -/
def made (c : Call) (mapper : Mapper Value β) (reply : Except CallFailure Bytes) :
    Except CallFailure β :=
  reply.bind fun bs => ((c.response.decode bs).mapError ReplyFault.failure).bind (mapper 0)

/-- A failure is made into itself. -/
@[simp] theorem made_error (c : Call) (mapper : Mapper Value β) (cause : CallFailure) :
    c.made mapper (.error cause) = .error cause := rfl

/-- A reply that can be decoded is made into what the mapper makes of its value. -/
theorem made_of_decode {c : Call} {bs : Bytes} {v : Value} (h : c.response.decode bs = .ok v)
    (mapper : Mapper Value β) : c.made mapper (.ok bs) = mapper 0 v := by
  show ((c.response.decode bs).mapError ReplyFault.failure).bind (mapper 0) = _
  rw [h]
  rfl

/-- One that cannot is made into the failure that tells why. -/
theorem made_of_fault {c : Call} {bs : Bytes} {fault : ReplyFault}
    (h : c.response.decode bs = .error fault) (mapper : Mapper Value β) :
    c.made mapper (.ok bs) = .error fault.failure := by
  show ((c.response.decode bs).mapError ReplyFault.failure).bind (mapper 0) = _
  rw [h]
  rfl

/-- What a call is **concluded** with: what the reply is made into, or the failure of the call. -/
def conclude (c : Call) (mapper : Mapper Value β) (reply : Except CallFailure Bytes) :
    Except FailedCall β :=
  (c.made mapper reply).mapError c.failed

end Call

/-- Entries that only record events. -/
def Announcing (log : List (Entry platform)) : Prop := ∀ entry ∈ log, ∃ e, entry.what = .said e

namespace Course

open Workflow (atEnd atEnd_eq_done Finishes)

variable {caller t u : Nat} {acts : List (Act platform)}

/-- What the answer to a submission leads to, when certificates are opened at once. -/
theorem awaitLog_of_await {a : Agent} {c : Call} {submitted : Nat} {id : RequestId}
    {answer : UpdateAnswer} {out : Option (Except CallFailure Bytes)}
    (h : Course caller (a.await c submitted id answer).run t acts (atEnd out) u)
    (prompt : OpenedAtOnce (kept acts)) :
    AwaitLog a.classifier c caller id submitted (submitted + a.config.poll.timeout) t answer
      (kept acts) out u := by
  match answer with
  | .certified certificate =>
    rcases of_except_bind_end h with ⟨_, unfinished⟩ | ⟨cause, rfl, failed⟩ |
      ⟨reading, as, bs, v, rfl, opening, h₁⟩
    · exact absurd rfl ((finishes_certifiedStatus c _ none id certificate).not_unfinished unfinished)
    · exact .failed (openingLog_of_certifiedStatus failed prompt)
    · rw [kept_append] at prompt ⊢
      have log := openingLog_of_certifiedStatus opening prompt.left
      match reading with
      | .missed => exact absurd log OpeningLog.not_missed
      -- Without a limit the certificate cannot come too late.
      | .lapsed => exact absurd log.of_lapsed.1 Bool.false_ne_true
      | .status s =>
        simp only at h₁
        split at h₁
        · obtain ⟨rfl, e, rfl⟩ := h₁.of_done
          obtain rfl := atEnd_eq_done e
          rw [kept_nil, List.append_nil]
          exact .decided log
        · rename_i pending
          obtain ⟨_, _, _, _, rfl, said, h₂⟩ := of_lift_bind_end (.say _) h₁
          obtain ⟨rfl, rfl⟩ := of_say said
          rw [kept_append] at prompt ⊢
          rw [← List.append_assoc]
          exact .polled (.pending log pending) (pollLog_of_poll h₂ prompt.right.right)
  | .accepted =>
    obtain ⟨_, _, _, _, rfl, said, h₁⟩ := of_lift_bind_end (.say _) h
    obtain ⟨rfl, rfl⟩ := of_say said
    rw [kept_append] at prompt ⊢
    exact .polled .accepted (pollLog_of_poll h₁ prompt.right)
  | .unexpected status =>
    obtain ⟨rfl, e, rfl⟩ := h.of_done
    obtain rfl := atEnd_eq_done e
    exact .unexpected status

/-- What a submission leaves in the record, when certificates are opened at once. -/
theorem submitLog_of_submit {a : Agent} {c : Call} {arg : Bytes}
    {out : Option (Except CallFailure Bytes)}
    (h : Course caller (a.submit c arg).run t acts (atEnd out) u)
    (prompt : OpenedAtOnce (kept acts)) : SubmitLog a c caller arg t (kept acts) out u := by
  obtain ⟨_, _, _, submitted, rfl, clock, h₁⟩ := of_lift_bind_end .now h
  obtain ⟨rfl, rfl, rfl⟩ := of_now clock
  obtain ⟨answer, _, _, _, rfl, asked, h₂⟩ := of_lift_bind_end (.ask _) h₁
  obtain ⟨number, delay, rfl, rfl⟩ := of_ask asked
  rw [List.nil_append, kept_append] at prompt ⊢
  match answer with
  | .error failure =>
    obtain ⟨rfl, e, rfl⟩ := h₂.of_done
    obtain rfl := atEnd_eq_done e
    exact .refused number failure
  | .ok ⟨id, answer⟩ =>
    exact .taken number (Nat.le_add_right _ _) (awaitLog_of_await h₂ prompt.right)

/-- Decoding a reply only records events. -/
theorem announcing_of_decode {c : Call} {bs : Bytes} {q : Workflow platform (Except CallFailure Value)}
    (h : Course caller (c.decode bs) t acts q u) : Announcing (kept acts) := by
  rw [Call.decode] at h
  cases decoded : c.response.decode bs with
  | ok v =>
    rw [decoded] at h
    obtain ⟨rfl, _⟩ := h.of_done
    exact List.forall_mem_nil _
  | error fault =>
    rw [decoded] at h
    cases h with
    | here => exact List.forall_mem_nil _
    | emit rest =>
      obtain ⟨rfl, _⟩ := rest.of_done
      exact List.forall_mem_singleton.mpr ⟨_, rfl⟩

/-- So does reporting an outcome. -/
theorem announcing_of_report {c : Call} {outcome : Except CallFailure β}
    {q : Workflow platform (Except FailedCall β)} (h : Course caller (c.report outcome) t acts q u) :
    Announcing (kept acts) := by
  cases outcome with
  | ok r =>
    obtain ⟨rfl, _⟩ := h.of_done
    exact List.forall_mem_nil _
  | error cause =>
    cases h with
    | here => exact List.forall_mem_nil _
    | emit rest =>
      obtain ⟨rfl, _⟩ := rest.of_done
      exact List.forall_mem_singleton.mpr ⟨_, rfl⟩

/-- Decoding a reply finishes. -/
theorem finishes_decode (c : Call) (bs : Bytes) :
    (c.decode bs : Workflow platform (Except CallFailure Value)).Finishes := by
  rw [Call.decode]
  split <;> trivial

/-- A reply is decoded and mapped, which only records events. -/
theorem of_conclusion {c : Call} {mapper : Mapper Value β} {bs : Bytes}
    {out : Option (Except CallFailure β)}
    (h : Course caller (do
      let v ← ExceptT.mk (c.decode bs)
      mapper 0 v : UpdateStep β).run t acts (atEnd out) u) :
    Announcing (kept acts) ∧
      out = some (c.made mapper (.ok bs)) := by
  show _ ∧ out = some (((c.response.decode bs).mapError ReplyFault.failure).bind (mapper 0))
  rcases of_except_bind_end h with ⟨_, unfinished⟩ | ⟨cause, rfl, failed⟩ |
    ⟨v, as, bs, _, rfl, decoded, h₁⟩
  · exact absurd rfl ((finishes_decode c bs).not_unfinished unfinished)
  · refine ⟨announcing_of_decode failed, ?_⟩
    rw [← of_decode failed]
    rfl
  · obtain ⟨rfl, e, rfl⟩ := h₁.of_done
    rw [List.append_nil, ← of_decode decoded]
    exact ⟨announcing_of_decode decoded, atEnd_eq_done e⟩

/-- Reporting an outcome finishes. -/
theorem finishes_report (c : Call) (outcome : Except CallFailure β) :
    (c.report outcome : Workflow platform (Except FailedCall β)).Finishes := by
  cases outcome <;> trivial

/-- What the outcome of an update leaves in the record, when certificates are opened at once. -/
theorem submitLog_of_updateOutcome {a : Agent} {c : Call} {mapper : Mapper Value β}
    {out : Option (Except CallFailure β)}
    (h : Course caller (a.updateOutcome c mapper).run t acts (atEnd out) u)
    (prompt : OpenedAtOnce (kept acts)) :
    (∃ m, c.request.check c.args = some m ∧ acts = [] ∧ out = some (.error m.requestFailure)) ∨
    ∃ arg log after reply v, c.encode a.config.layout = .ok arg ∧ kept acts = log ++ after ∧
      SubmitLog a c caller arg t log reply v ∧ Announcing after ∧ out = reply.map (c.made mapper) := by
  rcases of_except_bind_end h with ⟨_, unfinished⟩ | ⟨cause, rfl, failed⟩ |
    ⟨arg, as, bs, _, rfl, encoding, h₁⟩
  · obtain ⟨_, e, _⟩ := unfinished.of_done
    exact nomatch e
  · obtain ⟨rfl, e, _⟩ := failed.of_done
    have refused : c.encode a.config.layout = .error cause := (Workflow.done.inj e).symm
    cases accepted : c.request.check c.args with
    | some m =>
      rw [Call.encode_of_check_eq_some accepted] at refused
      obtain rfl := Except.error.inj refused
      exact .inl ⟨m, rfl, rfl, rfl⟩
    | none =>
      obtain ⟨arg, encoded⟩ := Call.exists_encode_of_check_eq_none accepted a.config.layout
      exact nomatch encoded.symm.trans refused
  · obtain ⟨rfl, e, rfl⟩ := encoding.of_done
    have encoded : c.encode a.config.layout = .ok arg := (Workflow.done.inj e).symm
    refine .inr ⟨arg, ?_⟩
    rw [List.nil_append] at prompt ⊢
    -- The submission ends without a reply, or its reply is decoded and mapped.
    rcases of_except_bind_end h₁ with ⟨rfl, unfinished⟩ | ⟨cause, rfl, failed⟩ |
      ⟨reply, cs, ds, v, rfl, replied, h₂⟩
    · have ended : Course caller (a.submit c arg).run _ bs (atEnd none) u := unfinished
      exact ⟨kept bs, [], none, u, encoded, (List.append_nil _).symm,
        submitLog_of_submit ended prompt, List.forall_mem_nil _, rfl⟩
    · exact ⟨kept bs, [], some (.error cause), u, encoded, (List.append_nil _).symm,
        submitLog_of_submit failed prompt, List.forall_mem_nil _, rfl⟩
    · rw [kept_append] at prompt ⊢
      obtain ⟨announcing, rfl⟩ := of_conclusion h₂
      exact ⟨kept cs, kept ds, some (.ok reply), v, encoded, rfl,
        submitLog_of_submit replied prompt.left, announcing, rfl⟩

/-- What an update that has ended leaves in the record, when certificates are opened at once. -/
theorem submitLog_of_update {a : Agent} {c : Call} {mapper : Mapper Value β}
    {out : Option (Except FailedCall β)} (h : Course caller (a.update c mapper) t acts (atEnd out) u)
    (prompt : OpenedAtOnce (kept acts)) :
    (∃ m, c.request.check c.args = some m ∧ Announcing (kept acts) ∧
      out = some (.error (c.failed m.requestFailure))) ∨
    ∃ arg log after reply v, c.encode a.config.layout = .ok arg ∧ kept acts = log ++ after ∧
      SubmitLog a c caller arg t log reply v ∧ Announcing after ∧
      out = reply.map (c.conclude mapper) := by
  rcases of_bind_end h with ⟨rfl, unfinished⟩ | ⟨outcome, as, bs, v, rfl, ended, report⟩
  · have ended : Course caller (a.updateOutcome c mapper).run t acts (atEnd none) u := unfinished
    rcases submitLog_of_updateOutcome ended prompt with ⟨_, _, _, e⟩ |
      ⟨arg, log, after, reply, v, encoded, split, submit, announcing, e⟩
    · exact nomatch e
    · obtain rfl := Option.map_eq_none_iff.mp e.symm
      exact .inr ⟨arg, log, after, none, v, encoded, split, submit, announcing, rfl⟩
  · rw [kept_append] at prompt ⊢
    have more := announcing_of_report report
    have reported : out = some (outcome.mapError c.failed) := by
      cases out with
      | none => exact absurd rfl ((finishes_report c outcome).not_unfinished report)
      | some result => rw [of_report report]
    subst reported
    have ended : Course caller (a.updateOutcome c mapper).run t as (atEnd (some outcome)) v := ended
    rcases submitLog_of_updateOutcome ended prompt.left with ⟨m, refused, rfl, e⟩ |
      ⟨arg, log, after, reply, v, encoded, split, submit, announcing, e⟩
    · obtain rfl := Option.some.inj e
      exact .inl ⟨m, refused, more, rfl⟩
    · obtain ⟨r, rfl, rfl⟩ := Option.map_eq_some_iff.mp e.symm
      exact .inr ⟨arg, log, after ++ kept bs, some r, v, encoded,
        by rw [split, List.append_assoc], submit, List.forall_mem_append.mpr ⟨announcing, more⟩, rfl⟩

end Course

end CertifiedCalls
