import CertifiedCalls.Call.Update
import CertifiedCalls.Proofs.Workflow.Course

/-! # Courses of updates
What the courses of an update do, part by part. A status is **certified** by the acts of a course
when a certificate was opened with a key that the course was told, and says so; and a course that
ends with a reply or a rejection goes through a certified status of the request that its submission
was answered with (`Course.of_submit`). -/

namespace CertifiedCalls

variable {β : Type} {k : Classifier} {caller t u : Nat} {acts : List (Act platform)}

/-- A status that carries a reply is that reply. -/
theorem Call.eq_replied_of_resolve {c : Call} {id : RequestId} {s : RequestStatus} {reply : Bytes}
    (h : c.resolve id s = .ok reply) : s = .replied reply := by
  cases s with
  | replied r => rw [Except.ok.inj h]
  | _ => exact nomatch h

/-- A status that stands for a rejection carries it. -/
theorem Call.eq_rejected_of_resolve {c : Call} {id : RequestId} {s : RequestStatus}
    {details : RejectDetails} (h : c.resolve id s = .error (.remoteRejected details)) :
    s = .rejected details.rejection ∧ details = ⟨c.target, c.method, some id, details.rejection,
      details.rejection.debugText⟩ := by
  cases s with
  | rejected r =>
    obtain rfl := CallFailure.remoteRejected.inj (Except.error.inj h)
    exact ⟨rfl, rfl⟩
  | _ => exact nomatch h

/-- A request was **answered** among acts. -/
def Heard (acts : List (Act platform)) (r : PlatformRequest)
    (answer : Except TransportFailure r.Result) : Prop :=
  ∃ number, Did acts (.kept (.answered (I := platform) number r answer))

/-- A request and its answer are acts in which it was answered. -/
theorem heard_of_asked (r : PlatformRequest) (answer : Except TransportFailure r.Result)
    (t u number : Nat) :
    Heard [⟨t, caller, .kept (.asked number r)⟩, ⟨u, caller, .kept (.answered number r answer)⟩] r
      answer :=
  ⟨number, _, List.mem_cons_of_mem _ List.mem_cons_self, rfl⟩

theorem Heard.left {as bs : List (Act platform)} {r : PlatformRequest}
    {answer : Except TransportFailure r.Result} (h : Heard as r answer) : Heard (as ++ bs) r answer :=
  ⟨h.choose, h.choose_spec.left⟩

theorem Heard.right {as bs : List (Act platform)} {r : PlatformRequest}
    {answer : Except TransportFailure r.Result} (h : Heard bs r answer) : Heard (as ++ bs) r answer :=
  ⟨h.choose, h.choose_spec.right⟩

/-- A course was **told** the root key: its claim ended with it, or was granted and the root key was
fetched. -/
def KeyTold (acts : List (Act platform)) (key : Bytes) : Prop :=
  Did acts (.claimed (.known key)) ∨ Did acts (.claimed .granted) ∧ Heard acts .rootKey (.ok key)

/-- A status is **certified** when a certificate was opened with the key that the course was told,
and says so. -/
def Certified (acts : List (Act platform)) (c : Call) (id : RequestId) (certificate : Bytes)
    (s : RequestStatus) : Prop :=
  ∃ key tree, KeyTold acts key ∧ Heard acts (.openCertificate certificate key c.target) (.ok tree) ∧
    tree.requestStatus id = .ok s

/-- A status is **read** when a certificate was delivered for the request and certifies it. -/
def Read (acts : List (Act platform)) (c : Call) (id : RequestId) (s : RequestStatus) : Prop :=
  ∃ certificate, Heard acts (.readState c.target id) (.ok certificate) ∧
    Certified acts c id certificate s

/-- A status of a request is **backed** when a submission was answered with the request, and a
certificate that came with that answer, or was read for the request after it, certifies the status. -/
def Backed (acts : List (Act platform)) (c : Call) (arg : Bytes) (id : RequestId)
    (s : RequestStatus) : Prop :=
  ∃ as bs answer certificate, acts = as ++ bs ∧
    Heard as (.update c.target (wireMethodName c.method) arg) (.ok ⟨id, answer⟩) ∧
    (answer = .certified certificate ∨ Heard bs (.readState c.target id) (.ok certificate)) ∧
    Certified bs c id certificate s

theorem KeyTold.left {as bs : List (Act platform)} {key : Bytes} (h : KeyTold as key) :
    KeyTold (as ++ bs) key :=
  h.imp Did.left fun ⟨granted, heard⟩ => ⟨granted.left, heard.left⟩

theorem KeyTold.right {as bs : List (Act platform)} {key : Bytes} (h : KeyTold bs key) :
    KeyTold (as ++ bs) key :=
  h.imp Did.right fun ⟨granted, heard⟩ => ⟨granted.right, heard.right⟩

theorem Certified.right {as bs : List (Act platform)} {c : Call} {id : RequestId}
    {certificate : Bytes} {s : RequestStatus} (h : Certified bs c id certificate s) :
    Certified (as ++ bs) c id certificate s := by
  obtain ⟨key, tree, told, opened, status⟩ := h
  exact ⟨key, tree, told.right, opened.right, status⟩

theorem Certified.left {as bs : List (Act platform)} {c : Call} {id : RequestId}
    {certificate : Bytes} {s : RequestStatus} (h : Certified as c id certificate s) :
    Certified (as ++ bs) c id certificate s := by
  obtain ⟨key, tree, told, opened, status⟩ := h
  exact ⟨key, tree, told.left, opened.left, status⟩

theorem Read.left {as bs : List (Act platform)} {c : Call} {id : RequestId} {s : RequestStatus}
    (h : Read as c id s) : Read (as ++ bs) c id s := by
  obtain ⟨certificate, heard, certified⟩ := h
  exact ⟨certificate, heard.left, certified.left⟩

theorem Read.right {as bs : List (Act platform)} {c : Call} {id : RequestId} {s : RequestStatus}
    (h : Read bs c id s) : Read (as ++ bs) c id s := by
  obtain ⟨certificate, heard, certified⟩ := h
  exact ⟨certificate, heard.right, certified.right⟩

theorem Backed.left {as bs : List (Act platform)} {c : Call} {arg : Bytes} {id : RequestId}
    {s : RequestStatus} (h : Backed as c arg id s) : Backed (as ++ bs) c arg id s := by
  obtain ⟨cs, ds, answer, certificate, rfl, heard, delivered, certified⟩ := h
  exact ⟨cs, ds ++ bs, answer, certificate, List.append_assoc _ _ _, heard,
    delivered.imp_right Heard.left, certified.left⟩

theorem Backed.right {as bs : List (Act platform)} {c : Call} {arg : Bytes} {id : RequestId}
    {s : RequestStatus} (h : Backed bs c arg id s) : Backed (as ++ bs) c arg id s := by
  obtain ⟨cs, ds, answer, certificate, rfl, heard, delivered, certified⟩ := h
  exact ⟨as ++ cs, ds, answer, certificate, (List.append_assoc _ _ _).symm, heard.right, delivered,
    certified⟩

/-- What the outcome of an update comes from: a failure that is no rejection, an unexpected answer,
a backed status that carries no reply, or a backed reply that is decoded and mapped. -/
inductive OutcomeFrom (a : Agent) (c : Call) (mapper : Mapper Value β) (acts : List (Act platform)) :
    Except CallFailure β → Prop
  /-- A failure that is no rejection. -/
  | failure {cause : CallFailure} (other : ¬ cause.IsRejection) :
    OutcomeFrom a c mapper acts (.error cause)
  /-- An unexpected answer. -/
  | unexpected {arg : Bytes} {id : RequestId} {status : Nat}
    (encoded : c.encode a.config.layout = .ok arg)
    (heard : Heard acts (.update c.target (wireMethodName c.method) arg)
      (.ok ⟨id, .unexpected status⟩)) :
    OutcomeFrom a c mapper acts (.error (c.unexpectedFailure id status))
  /-- A backed status that carries no reply. -/
  | status {arg : Bytes} {id : RequestId} {s : RequestStatus} {cause : CallFailure}
    (encoded : c.encode a.config.layout = .ok arg) (backed : Backed acts c arg id s)
    (resolved : c.resolve id s = .error cause) : OutcomeFrom a c mapper acts (.error cause)
  /-- A backed reply that is decoded and mapped. -/
  | reply {arg : Bytes} {id : RequestId} {reply : Bytes} {v : Value}
    (encoded : c.encode a.config.layout = .ok arg) (backed : Backed acts c arg id (.replied reply))
    (decoded : c.response.decode reply = .ok v) : OutcomeFrom a c mapper acts (mapper 0 v)

/-- A stretch **gives up** when it fails other than by a rejection. -/
def GivesUp (out : Except CallFailure Bytes) : Prop :=
  ∃ cause, out = .error cause ∧ ¬ cause.IsRejection

namespace Course

/-- A request that was answered is one that the course heard the answer of. -/
theorem heard_of_ask {r : PlatformRequest} {answer : Except TransportFailure r.Result}
    (h : Course caller r.ask t acts (.done answer) u) : Heard acts r answer := by
  obtain ⟨number, _, _, rfl⟩ := of_ask h
  exact heard_of_asked r answer _ _ number

/-- So is one with a limit. -/
theorem heard_of_askWithin {limit : Option Nat} {r : PlatformRequest}
    {answer : Except TransportFailure r.Result}
    (h : Course caller (r.askWithin limit) t acts (.done (some answer)) u) : Heard acts r answer := by
  obtain ⟨answer, number, _, same, _, _, rfl⟩ | ⟨_, _, none, _⟩ := of_askWithin h
  · obtain rfl := Option.some.inj same
    exact heard_of_asked r _ _ _ number
  · exact nomatch none

/-! ### Certificates -/

/-- Fetching the root key fails, gives up, or is told the key. -/
theorem of_fetchRootKey {limit : Option Nat} {out : Except CallFailure (Option Bytes)}
    (h : Course caller (Call.fetchRootKey k limit).run t acts (.done out) u) :
    (∃ cause, out = .error cause ∧ ¬ cause.IsRejection) ∨ out = .ok none ∨
      ∃ key, out = .ok (some key) ∧ Heard acts .rootKey (.ok key) := by
  -- The event, the request, and what its answer leads to.
  obtain ⟨_, _, _, _, rfl, _, h₁⟩ := of_lift_bind_done h
  obtain ⟨answer, as, bs, _, rfl, asked, h₂⟩ := of_lift_bind_done h₁
  match answer with
  | some (.ok key) =>
    obtain ⟨_, _, _, _, rfl, _, h₃⟩ := of_lift_bind_done h₂
    obtain ⟨_, e, _⟩ := h₃.of_done
    have heard : Heard as .rootKey (.ok key) := heard_of_askWithin asked
    exact .inr (.inr ⟨key, Workflow.done.inj e, heard.left.right⟩)
  | some (.error failure) =>
    obtain ⟨_, _, _, _, rfl, _, h₃⟩ := of_lift_bind_done h₂
    obtain ⟨_, e, _⟩ := h₃.of_done
    exact .inl ⟨_, Workflow.done.inj e, k.not_isRejection failure⟩
  | none =>
    obtain ⟨_, _, _, _, rfl, _, h₃⟩ := of_lift_bind_done h₂
    obtain ⟨_, e, _⟩ := h₃.of_done
    exact .inr (.inl (Workflow.done.inj e))

/-- A claim on the root key fails, gives up, or is told the key. -/
theorem of_rootKey {limit : Option Nat} {out : Except CallFailure (Option Bytes)}
    (h : Course caller (Call.rootKey k limit).run t acts (.done out) u) :
    (∃ cause, out = .error cause ∧ ¬ cause.IsRejection) ∨ out = .ok none ∨
      ∃ key, out = .ok (some key) ∧ KeyTold acts key := by
  obtain ⟨outcome, as, bs, _, rfl, claim, h₁⟩ := of_lift_bind_done h
  have ended : Did as (.claimed outcome) := by
    obtain ⟨_, rfl⟩ := of_claimKey claim
    exact ⟨_, List.mem_cons_self, rfl⟩
  -- The key is known to the agent, or the claim is granted and the key is fetched.
  match outcome with
  | .known key =>
    obtain ⟨_, e, _⟩ := h₁.of_done
    exact .inr (.inr ⟨key, Workflow.done.inj e, .inl ended.left⟩)
  | .granted =>
    rcases of_fetchRootKey h₁ with failed | none | ⟨key, e, heard⟩
    · exact .inl failed
    · exact .inr (.inl none)
    · exact .inr (.inr ⟨key, e, .inr ⟨ended.left, heard.right⟩⟩)
  | .lapsed =>
    obtain ⟨_, e, _⟩ := h₁.of_done
    exact .inr (.inl (Workflow.done.inj e))

/-- Opening a certificate for a status fails, gives up, or certifies the status. -/
theorem of_certifiedStatus {c : Call} {limit : Option Nat} {id : RequestId} {certificate : Bytes}
    {out : Except CallFailure Reading}
    (h : Course caller (c.certifiedStatus k limit id certificate).run t acts (.done out) u) :
    (∃ cause, out = .error cause ∧ ¬ cause.IsRejection) ∨ out = .ok .lapsed ∨
      ∃ s, out = .ok (.status s) ∧ Certified acts c id certificate s := by
  rcases of_except_bind_done h with ⟨cause, e, failed⟩ | ⟨told, as, bs, _, rfl, asked, h₁⟩
  · rcases of_rootKey failed with ⟨cause', same, other⟩ | none | ⟨_, some, _⟩
    · exact .inl ⟨cause, e, Except.error.inj same ▸ other⟩
    · exact nomatch none
    · exact nomatch some
  · match told with
    | none =>
      obtain ⟨_, e, _⟩ := h₁.of_done
      exact .inr (.inl (Workflow.done.inj e))
    | some key =>
      -- The certificate is opened with the key that the claim told, and with no other.
      have key_told : KeyTold as key := by
        rcases of_rootKey asked with ⟨_, failed, _⟩ | none | ⟨key', same, key_told⟩
        · exact nomatch failed
        · exact nomatch none
        · obtain rfl := Option.some.inj (Except.ok.inj same)
          exact key_told
      obtain ⟨opened, bs, cs, _, rfl, opening, h₂⟩ := of_lift_bind_done h₁
      match opened with
      | .error failure =>
        obtain ⟨_, e, _⟩ := h₂.of_done
        exact .inl ⟨_, Workflow.done.inj e, k.not_isRejection failure⟩
      | .ok tree =>
        have heard : Heard bs (.openCertificate certificate key c.target) (.ok tree) :=
          heard_of_ask opening
        simp only at h₂
        cases status : tree.requestStatus id with
        | error fault =>
          rw [status] at h₂
          obtain ⟨_, e, _⟩ := h₂.of_done
          exact .inl ⟨_, Workflow.done.inj e, not_false⟩
        | ok s =>
          rw [status] at h₂
          obtain ⟨_, e, _⟩ := h₂.of_done
          exact .inr (.inr ⟨s, Workflow.done.inj e, key, tree, key_told.left, heard.left.right,
            status⟩)

/-! ### Polling -/

/-- A reading fails, gives up, misses, or reads the status of the request. -/
theorem of_readStatus {c : Call} {limit : Nat} {id : RequestId} {out : Except CallFailure Reading}
    (h : Course caller (c.readStatus k limit id).run t acts (.done out) u) :
    (∃ cause, out = .error cause ∧ ¬ cause.IsRejection) ∨ out = .ok .lapsed ∨ out = .ok .missed ∨
      ∃ s, out = .ok (.status s) ∧ Read acts c id s := by
  obtain ⟨answer, as, bs, _, rfl, asked, h₁⟩ := of_lift_bind_done h
  match answer with
  | none =>
    obtain ⟨_, e, _⟩ := h₁.of_done
    exact .inr (.inl (Workflow.done.inj e))
  | some (.ok certificate) =>
    have heard : Heard as (.readState c.target id) (.ok certificate) := heard_of_askWithin asked
    rcases of_certifiedStatus h₁ with failed | lapsed | ⟨s, e, certified⟩
    · exact .inl failed
    · exact .inr (.inl lapsed)
    · exact .inr (.inr (.inr ⟨s, e, certificate, heard.left, certified.right⟩))
  | some (.error failure) =>
    simp only at h₁
    split at h₁
    · obtain ⟨_, _, _, _, rfl, _, h₂⟩ := of_lift_bind_done h₁
      obtain ⟨_, e, _⟩ := h₂.of_done
      exact .inr (.inr (.inl (Workflow.done.inj e)))
    · obtain ⟨_, e, _⟩ := h₁.of_done
      exact .inl ⟨_, Workflow.done.inj e, k.not_isRejection failure⟩

/-- Giving a request up is no rejection. -/
theorem of_timeOut {schedule : PollSchedule} {id : RequestId} {out : Except CallFailure Bytes}
    (h : Course caller (Call.timeOut schedule id).run t acts (.done out) u) : GivesUp out := by
  obtain ⟨now, _, _, _, rfl, _, h₁⟩ := of_lift_bind_done h
  obtain ⟨_, e, _⟩ := h₁.of_done
  exact ⟨_, Workflow.done.inj e, not_false⟩

/-- Polling gives up, or ends with a final status of the request that was read. -/
theorem of_poll {c : Call} {id : RequestId} {readings : Nat} {schedule : PollSchedule}
    {out : Except CallFailure Bytes}
    (h : Course caller (c.poll k id readings schedule).run t acts (.done out) u) :
    GivesUp out ∨ ∃ s, s.isTerminal = true ∧ Read acts c id s ∧ out = c.resolve id s := by
  -- On the readings, for all schedules: one that decides nothing leaves the request to the later ones.
  induction readings generalizing schedule t acts with
  | zero => exact nomatch h
  | succ readings ih =>
    obtain ⟨now, as, _, _, rfl, _, h₁⟩ := of_lift_bind_done h
    simp only at h₁
    split at h₁
    · exact .inl (of_timeOut h₁)
    · obtain ⟨_, bs, _, _, rfl, _, h₂⟩ := of_lift_bind_done h₁
      rcases of_except_bind_done h₂ with ⟨cause, e, failed⟩ | ⟨reading, cs, ds, _, rfl, read, h₃⟩
      · rcases of_readStatus failed with ⟨cause', same, other⟩ | lapsed | missed | ⟨_, status, _⟩
        · exact .inl ⟨cause, e, Except.error.inj same ▸ other⟩
        · exact nomatch lapsed
        · exact nomatch missed
        · exact nomatch status
      · -- The courses of the later readings are courses of the same request.
        have again {v : Nat} {next : PollSchedule}
            (h : Course caller (c.poll k id readings next).run v ds (.done out) u) :
            GivesUp out ∨ ∃ s, s.isTerminal = true ∧ Read (as ++ (bs ++ (cs ++ ds))) c id s ∧
              out = c.resolve id s := by
          rcases ih h with given_up | ⟨s, terminal, read, e⟩
          · exact .inl given_up
          · exact .inr ⟨s, terminal, read.right.right.right, e⟩
        match reading with
        | .missed => exact again h₃
        | .lapsed =>
          obtain ⟨_, _, _, _, rfl, _, h₄⟩ := of_lift_bind_done h₃
          exact .inl (of_timeOut h₄)
        | .status s =>
          simp only at h₃
          split at h₃
          · rename_i terminal
            obtain ⟨_, _, _, _, rfl, _, h₄⟩ := of_lift_bind_done h₃
            obtain ⟨_, _, _, _, rfl, _, h₅⟩ := of_lift_bind_done h₄
            obtain ⟨_, e, _⟩ := h₅.of_done
            have here : Read cs c id s := by
              rcases of_readStatus read with ⟨_, failed, _⟩ | lapsed | missed | ⟨s', same, here⟩
              · exact nomatch failed
              · exact nomatch lapsed
              · exact nomatch missed
              · obtain rfl := Reading.status.inj (Except.ok.inj same)
                exact here
            exact .inr ⟨s, terminal, here.left.right.right, Workflow.done.inj e⟩
          · exact again h₃

/-! ### Submissions -/

/-- What the answer to a submission leads to: a failure, the end of the request in a certificate, or
the rejection that stands for an unexpected answer. -/
theorem of_await {a : Agent} {c : Call} {submitted : Nat} {id : RequestId} {answer : UpdateAnswer}
    {out : Except CallFailure Bytes}
    (h : Course caller (a.await c submitted id answer).run t acts (.done out) u) :
    GivesUp out ∨ (∃ s, out = c.resolve id s ∧
        ((∃ certificate, answer = .certified certificate ∧ Certified acts c id certificate s) ∨
          Read acts c id s)) ∨
      ∃ status, answer = .unexpected status ∧ out = .error (c.unexpectedFailure id status) := by
  -- Once it is polled for, the request ends with a status that was read.
  have polled {as bs : List (Act platform)} {v : Nat}
      (h : Course caller (a.poll c id submitted).run v bs (.done out) u) :
      GivesUp out ∨ ∃ s, out = c.resolve id s ∧ Read (as ++ bs) c id s := by
    rcases of_poll h with given_up | ⟨s, _, read, e⟩
    · exact .inl given_up
    · exact .inr ⟨s, e, read.right⟩
  match answer with
  | .certified certificate =>
    rcases of_except_bind_done h with ⟨cause, e, failed⟩ | ⟨reading, as, bs, _, rfl, opening, h₁⟩
    · rcases of_certifiedStatus failed with ⟨cause', same, other⟩ | lapsed | ⟨_, status, _⟩
      · exact .inl ⟨cause, e, Except.error.inj same ▸ other⟩
      · exact nomatch lapsed
      · exact nomatch status
    · match reading with
      -- A certificate that decides nothing leaves the request to be polled for.
      | .missed | .lapsed =>
        rcases polled h₁ with given_up | ⟨s, e, read⟩
        · exact .inl given_up
        · exact .inr (.inl ⟨s, e, .inr read⟩)
      | .status s =>
        simp only at h₁
        split at h₁
        · obtain ⟨_, e, _⟩ := h₁.of_done
          rcases of_certifiedStatus opening with ⟨_, failed, _⟩ | lapsed | ⟨s', same, certified⟩
          · exact nomatch failed
          · exact nomatch lapsed
          · obtain rfl := Reading.status.inj (Except.ok.inj same)
            exact .inr (.inl ⟨s, Workflow.done.inj e, .inl ⟨certificate, rfl, certified.left⟩⟩)
        · obtain ⟨_, cs, _, _, rfl, _, h₂⟩ := of_lift_bind_done h₁
          rcases polled h₂ with given_up | ⟨s, e, read⟩
          · exact .inl given_up
          · exact .inr (.inl ⟨s, e, .inr (Read.right read)⟩)
  | .accepted =>
    obtain ⟨_, as, _, _, rfl, _, h₁⟩ := of_lift_bind_done h
    rcases polled h₁ with given_up | ⟨s, e, read⟩
    · exact .inl given_up
    · exact .inr (.inl ⟨s, e, .inr read⟩)
  | .unexpected status =>
    obtain ⟨_, e, _⟩ := h.of_done
    exact .inr (.inr ⟨status, rfl, Workflow.done.inj e⟩)

/-- A submission fails, or its acts back the status that decides it, or its immediate answer was
unexpected. -/
theorem of_submit {a : Agent} {c : Call} {arg : Bytes} {out : Except CallFailure Bytes}
    (h : Course caller (a.submit c arg).run t acts (.done out) u) :
    GivesUp out ∨ (∃ id s, out = c.resolve id s ∧ Backed acts c arg id s) ∨
      ∃ id status, out = .error (c.unexpectedFailure id status) ∧
        Heard acts (.update c.target (wireMethodName c.method) arg)
          (.ok ⟨id, .unexpected status⟩) := by
  obtain ⟨submitted, as, _, _, rfl, _, h₁⟩ := of_lift_bind_done h
  obtain ⟨answer, bs, cs, _, rfl, asked, h₂⟩ := of_lift_bind_done h₁
  match answer with
  | .error failure =>
    obtain ⟨_, e, _⟩ := h₂.of_done
    exact .inl ⟨_, Workflow.done.inj e, a.classifier.not_isRejection failure⟩
  | .ok ⟨id, answer⟩ =>
    have heard : Heard bs (.update c.target (wireMethodName c.method) arg) (.ok ⟨id, answer⟩) :=
      heard_of_ask asked
    -- The answer to the submission is in front, and what it leads to after.
    have split : as ++ (bs ++ cs) = (as ++ bs) ++ cs := (List.append_assoc _ _ _).symm
    rcases of_await h₂ with given_up |
      ⟨s, e, ⟨certificate, same, certified⟩ | ⟨certificate, read, certified⟩⟩
      | ⟨status, rfl, e⟩
    · exact .inl given_up
    · exact .inr (.inl ⟨id, s, e, as ++ bs, cs, answer, certificate, split, heard.right, .inl same,
        certified⟩)
    · exact .inr (.inl ⟨id, s, e, as ++ bs, cs, answer, certificate, split, heard.right, .inr read,
        certified⟩)
    · exact .inr (.inr ⟨id, status, e, heard.left.right⟩)

/-- Decoding a reply records what is wrong with it, and gives what the schema makes of it. -/
theorem of_decode {c : Call} {reply : Bytes} {out : Except CallFailure Value}
    (h : Course caller (c.decode reply) t acts (.done out) u) :
    out = (c.response.decode reply).mapError ReplyFault.failure := by
  rw [Call.decode] at h
  cases decoded : c.response.decode reply with
  | ok v =>
    rw [decoded] at h
    obtain ⟨_, e, _⟩ := h.of_done
    exact Workflow.done.inj e
  | error fault =>
    rw [decoded] at h
    obtain ⟨_, _, _, _, rfl, _, h₁⟩ := of_bind_done h
    obtain ⟨_, e, _⟩ := h₁.of_done
    exact Workflow.done.inj e

/-- Reporting an outcome records a failure, and gives the outcome. -/
theorem of_report {c : Call} {outcome : Except CallFailure β} {out : Except FailedCall β}
    (h : Course (I := platform) caller (c.report outcome) t acts (.done out) u) :
    out = outcome.mapError c.failed := by
  cases outcome with
  | ok r =>
    obtain ⟨_, e, _⟩ := h.of_done
    exact Workflow.done.inj e
  | error cause =>
    obtain ⟨_, _, _, _, rfl, _, h₁⟩ := of_bind_done h
    obtain ⟨_, e, _⟩ := h₁.of_done
    exact Workflow.done.inj e

/-- What the outcome of an update comes from. -/
theorem of_updateOutcome {a : Agent} {c : Call} {mapper : Mapper Value β} {out : Except CallFailure β}
    (h : Course caller (a.updateOutcome c mapper).run t acts (.done out) u) :
    OutcomeFrom a c mapper acts out := by
  rcases of_except_bind_done h with ⟨cause, rfl, failed⟩ | ⟨arg, as, bs, _, rfl, encoding, h₁⟩
  · obtain ⟨_, e, _⟩ := failed.of_done
    have refused : c.encode a.config.layout = .error cause := (Workflow.done.inj e).symm
    rw [Call.encode] at refused
    cases encoded : c.request.encode a.config.layout c.args with
    | ok _ =>
      rw [encoded] at refused
      exact nomatch refused
    | error m =>
      rw [encoded] at refused
      obtain rfl := Except.error.inj refused
      exact .failure not_false
  · obtain ⟨_, e, _⟩ := encoding.of_done
    have encoded : c.encode a.config.layout = .ok arg := (Workflow.done.inj e).symm
    -- The submission fails, or it gives the reply of a status.
    rcases of_except_bind_done h₁ with ⟨cause, rfl, failed⟩ | ⟨reply, bs, cs, _, rfl, replied, h₂⟩
    · rcases of_submit failed with ⟨cause', same, other⟩ | ⟨id, s, same, backed⟩ |
        ⟨id, status, same, heard⟩
      · obtain rfl := Except.error.inj same
        exact .failure other
      · exact .status encoded backed.right same.symm
      · obtain rfl := Except.error.inj same
        exact .unexpected encoded heard.right
    · rcases of_submit replied with ⟨_, none, _⟩ | ⟨id, s, same, backed⟩ | ⟨_, _, none, _⟩
      · exact nomatch none
      · obtain rfl := Call.eq_replied_of_resolve same.symm
        rcases of_except_bind_done h₂ with ⟨cause, rfl, failed⟩ | ⟨v, cs, ds, _, rfl, decoding, h₃⟩
        · have refused := of_decode failed
          cases decoded : c.response.decode reply with
          | ok v =>
            rw [decoded] at refused
            exact nomatch refused
          | error fault =>
            rw [decoded] at refused
            obtain rfl := Except.error.inj refused
            exact .failure not_false
        · have accepted := of_decode decoding
          cases decoded : c.response.decode reply with
          | ok v' =>
            rw [decoded] at accepted
            obtain rfl := Except.ok.inj accepted
            obtain ⟨_, e, _⟩ := h₃.of_done
            obtain rfl := Workflow.done.inj e
            exact .reply encoded backed.left.right decoded
          | error fault =>
            rw [decoded] at accepted
            exact nomatch accepted
      · exact nomatch none

/-- What an update reports comes from its acts. -/
theorem of_update {a : Agent} {c : Call} {mapper : Mapper Value β} {out : Except FailedCall β}
    (h : Course caller (a.update c mapper) t acts (.done out) u) :
    ∃ outcome, out = outcome.mapError c.failed ∧ OutcomeFrom a c mapper acts outcome := by
  obtain ⟨outcome, as, bs, _, rfl, h₁, report⟩ := of_bind_done h
  refine ⟨outcome, of_report report, ?_⟩
  cases of_updateOutcome h₁ with
  | failure other => exact .failure other
  | unexpected encoded heard => exact .unexpected encoded heard.left
  | status encoded backed resolved => exact .status encoded backed.left resolved
  | reply encoded backed decoded => exact .reply encoded backed.left decoded

end Course

end CertifiedCalls
