import CertifiedCalls.Proofs.Call.Authentic
import CertifiedCalls.Proofs.Call.UpdateLog
import CertifiedCalls.Proofs.Workflow.Running

/-! # Two paths to one result
The certificate with the final status of a request may come **at once**, with the answer to the
submission, or it may have to be **polled for**, through any number of readings that tell nothing new
or fail for the moment. The caller cannot tell the difference: what an update comes to depends on the
call, the request and the final status only (`update_paths_agree`). -/

namespace CertifiedCalls

variable {σ β : Type}

/-! ### What a transport and a verifier do -/

section Scenarios

variable (k : Classifier) (verify : Verifier) (transport : Environment platform σ) (c : Call)
  (id : RequestId)

/-- The root key is known at a moment, or is fetched up to another. -/
inductive KeyAt : Moment σ → Bytes → Moment σ → Prop
  /-- It is known. -/
  | known {m : Moment σ} {key : Bytes} (known : m.key = some key) : KeyAt m key m
  /-- It is fetched. -/
  | fetched {m : Moment σ} {key : Bytes} {delay : Nat} {state : σ} (unknown : m.key = none)
    (served : transport m.state m.now .rootKey = ⟨state, delay, .ok key⟩) :
    KeyAt m key ⟨m.now + delay, state, some key⟩

/-- A certificate opens with the root key and tells a status of the request. -/
def CertifiedAt (certificate : Bytes) (m : Moment σ) (s : RequestStatus) (m' : Moment σ) : Prop :=
  ∃ key tree, KeyAt transport m key m' ∧ verify certificate key c.target = .ok tree ∧
    tree.requestStatus id = .ok s

/-- A reading that starts at a moment fails for the moment, or tells a status, by a deadline. -/
inductive ReadAt (deadline : Nat) : Moment σ → Option RequestStatus → Moment σ → Prop
  /-- It fails in a way that may be tried again. -/
  | missed {m : Moment σ} {state : σ} {delay : Nat} {failure : TransportFailure}
    (served : transport m.state m.now (.readState c.target id) = ⟨state, delay, .error failure⟩)
    (inTime : m.now + delay ≤ deadline) (retryable : (k.classify failure).isRetryable = true) :
    ReadAt deadline m none (m.after delay state)
  /-- It delivers a certificate. -/
  | told {m m' : Moment σ} {state : σ} {delay : Nat} {certificate : Bytes} {s : RequestStatus}
    (served : transport m.state m.now (.readState c.target id) = ⟨state, delay, .ok certificate⟩)
    (certified : CertifiedAt verify transport c id certificate (m.after delay state) s m')
    (inTime : m'.now ≤ deadline) : ReadAt deadline m (some s) m'

/-- From a moment on, readings at the times of a schedule tell nothing new or fail for the moment, until
the last of so many tells a final status. -/
inductive PolledAt : PollSchedule → Moment σ → Nat → RequestStatus → Prop
  /-- The reading tells the final status. -/
  | last {schedule next : PollSchedule} {m m' : Moment σ} {delay : Nat} {s : RequestStatus}
    (due : schedule.next m.now = some (delay, next))
    (read : ReadAt k verify transport c id schedule.deadline (m.after delay m.state) (some s) m')
    (final : s.isTerminal = true) : PolledAt schedule m 1 s
  /-- The reading does not, and the next ones follow. -/
  | again {schedule next : PollSchedule} {m m' : Moment σ} {delay n : Nat}
    {told : Option RequestStatus} {s : RequestStatus}
    (due : schedule.next m.now = some (delay, next))
    (read : ReadAt k verify transport c id schedule.deadline (m.after delay m.state) told m')
    (pending : ∀ s, told = some s → s.isTerminal = false) (rest : PolledAt next m' n s) :
    PolledAt schedule m (n + 1) s

/-- A submission is answered **at once** with a certificate that tells a status. -/
def AnsweredAtOnce (arg : Bytes) (m : Moment σ) (s : RequestStatus) : Prop :=
  ∃ state delay certificate m',
    transport m.state m.now (.update c.target (wireMethodName c.method) arg)
      = ⟨state, delay, .ok ⟨id, .certified certificate⟩⟩ ∧
    CertifiedAt verify transport c id certificate (m.after delay state) s m'

/-- A submission is accepted, or answered with a certificate that tells that the request is still under
way, and then a final status is **polled for** successfully. -/
inductive AnsweredByPolling (a : Agent) (arg : Bytes) (m : Moment σ) (s : RequestStatus) : Prop
  /-- The request is accepted. -/
  | accepted {state : σ} {delay n : Nat}
    (served : transport m.state m.now (.update c.target (wireMethodName c.method) arg)
      = ⟨state, delay, .ok ⟨id, .accepted⟩⟩)
    (polled : PolledAt a.classifier verify transport c id (.start a.config.poll m.now)
      (m.after delay state) n s)
    (enough : n ≤ a.patience)
  /-- A certificate comes, and tells that the request is still under way. -/
  | pending {state : σ} {delay n : Nat} {certificate : Bytes} {m' : Moment σ} {early : RequestStatus}
    (served : transport m.state m.now (.update c.target (wireMethodName c.method) arg)
      = ⟨state, delay, .ok ⟨id, .certified certificate⟩⟩)
    (certified : CertifiedAt verify transport c id certificate (m.after delay state) early m')
    (pending : early.isTerminal = false)
    (polled : PolledAt a.classifier verify transport c id (.start a.config.poll m.now) m' n s)
    (enough : n ≤ a.patience)

end Scenarios

/-- What an update is **settled** with by the final status of its request. -/
def Call.settled (c : Call) (layout : Layout) (mapper : Mapper Value β) (id : RequestId)
    (s : RequestStatus) : Except FailedCall β :=
  ((c.encode layout).bind fun _ => c.made mapper (c.resolve id s)).mapError c.failed

/-! ### What the stretches of an update come to -/

section Stretches

variable {k : Classifier} {verify : Verifier} {transport : Environment platform σ} {c : Call}
  {id : RequestId} {m m' : Moment σ} {limit : Option Nat} {s : RequestStatus}

/-- What is done by the limit is in time. -/
theorem isInTime_of_le {now delay : Nat} (h : ∀ l, limit = some l → now + delay ≤ l) :
    isInTime now delay limit = true := by
  cases limit with
  | none => exact Bool.or_true _
  | some l => simp [isInTime, h l rfl]

/-- A claim on the root key comes to it. -/
theorem KeyAt.comesTo {key : Bytes} (h : KeyAt transport m key m')
    (inTime : ∀ l, limit = some l → m'.now ≤ l) :
    ComesTo (verifiedBy verify transport) m (Call.rootKey k limit).run (.ok (some key)) m' := by
  cases h with
  | known known => exact .run_lift_bind (.claimKey_of_known known limit) (.done _ _ _)
  | @fetched delay state unknown served =>
    have served : verifiedBy verify transport m.state m.now .rootKey = ⟨state, delay, .ok key⟩ := served
    refine .run_lift_bind (.claimKey_of_unknown unknown limit) ?_
    refine .run_lift_bind (.say _ _ _) ?_
    refine .run_lift_bind (.askWithin served (isInTime_of_le inTime)) ?_
    exact .run_lift_bind (.publishKey _ _ key) (.done _ _ _)

/-- Time does not go back while the root key is fetched. -/
theorem KeyAt.later {key : Bytes} (h : KeyAt transport m key m') : m.now ≤ m'.now := by
  cases h with
  | known _ => exact Nat.le_refl _
  | fetched _ _ => exact Nat.le_add_right _ _

/-- Looking for a status in a certificate comes to the status. -/
theorem CertifiedAt.comesTo {certificate : Bytes}
    (h : CertifiedAt verify transport c id certificate m s m')
    (inTime : ∀ l, limit = some l → m'.now ≤ l) :
    ComesTo (verifiedBy verify transport) m (c.certifiedStatus k limit id certificate).run
      (.ok (.status s)) m' := by
  obtain ⟨key, tree, told, opens, tells⟩ := h
  refine .run_bind (told.comesTo inTime) ?_
  -- The verifier takes no time and leaves the transport as it is.
  have served : verifiedBy verify transport m'.state m'.now (.openCertificate certificate key c.target)
      = ⟨m'.state, 0, .ok tree⟩ := by
    show Served.mk m'.state 0 (verify certificate key c.target) = _
    rw [opens]
    rfl
  refine .run_lift_bind (.ask served) ?_
  simp only [tells]
  exact .done _ _ _

/-- A reading comes to the status that it tells, or misses. -/
theorem ReadAt.comesTo {deadline : Nat} {told : Option RequestStatus}
    (h : ReadAt k verify transport c id deadline m told m') :
    ComesTo (verifiedBy verify transport) m (c.readStatus k deadline id).run
      (.ok (told.elim .missed .status)) m' := by
  cases h with
  | @missed state delay failure served inTime retryable =>
    have served : verifiedBy verify transport m.state m.now (.readState c.target id)
        = ⟨state, delay, .error failure⟩ := served
    refine .run_lift_bind (.askWithin served (isInTime_of_le ?_)) ?_
    · rintro l ⟨⟩
      exact inTime
    · simp only [retryable, if_true]
      exact .run_lift_bind (.say _ _ _) (.done _ _ _)
  | @told _ state delay certificate s served certified inTime =>
    have served : verifiedBy verify transport m.state m.now (.readState c.target id)
        = ⟨state, delay, .ok certificate⟩ := served
    have soon : m.now + delay ≤ m'.now := by
      obtain ⟨_, _, told, _⟩ := certified
      exact told.later
    refine .run_lift_bind (.askWithin served (isInTime_of_le ?_)) (certified.comesTo ?_)
    · rintro l ⟨⟩
      exact Nat.le_trans soon inTime
    · rintro l ⟨⟩
      exact inTime

/-- **Polling comes to what the final status resolves to.** -/
theorem PolledAt.comesTo {schedule : PollSchedule} {n readings : Nat}
    (h : PolledAt k verify transport c id schedule m n s) (enough : n ≤ readings) :
    s.isTerminal = true ∧ ∃ m', ComesTo (verifiedBy verify transport) m
      (c.poll k id readings schedule).run (c.resolve id s) m' := by
  -- On the readings: those before the last leave the request to the later ones.
  induction h generalizing readings with
  | @last schedule next m m' delay s due read final =>
    obtain ⟨readings, rfl⟩ := Nat.exists_eq_add_of_le' enough
    refine ⟨final, m', .run_lift_bind (.now _ m) ?_⟩
    simp only [due]
    refine .run_lift_bind (.pause _ m delay) (.run_bind read.comesTo ?_)
    simp only [Option.elim_some, final, if_true]
    exact .run_lift_bind (.now _ m') (.run_lift_bind (.say _ m' _) (.done _ m' _))
  | @again schedule next m m' delay n told s due read pending rest ih =>
    obtain ⟨readings, rfl⟩ := Nat.exists_eq_add_of_le' enough
    obtain ⟨final, m'', rest⟩ := ih (Nat.le_add_left n readings)
    refine ⟨final, m'', .run_lift_bind (.now _ m) ?_⟩
    simp only [due]
    refine .run_lift_bind (.pause _ m delay) (.run_bind read.comesTo ?_)
    cases told with
    | none => exact rest
    | some early =>
      simp only [Option.elim_some, pending early rfl, Bool.false_eq_true, if_false]
      exact rest

/-- A submission that is answered at once comes to what the final status resolves to. -/
theorem AnsweredAtOnce.comesTo {arg : Bytes}
    (h : AnsweredAtOnce verify transport c id arg m s) (final : s.isTerminal = true) (a : Agent) :
    ∃ m', ComesTo (verifiedBy verify transport) m (a.submit c arg).run (c.resolve id s) m' := by
  obtain ⟨state, delay, certificate, m', served, certified⟩ := h
  have served : verifiedBy verify transport m.state m.now
      (.update c.target (wireMethodName c.method) arg)
      = ⟨state, delay, .ok ⟨id, .certified certificate⟩⟩ := served
  refine ⟨m', .run_lift_bind (.now _ m) (.run_lift_bind (.ask served) ?_)⟩
  refine .run_bind (certified.comesTo nofun) ?_
  simp only [final, if_true]
  exact .done _ m' _

/-- So does one whose final status is polled for. -/
theorem AnsweredByPolling.comesTo {a : Agent} {arg : Bytes}
    (h : AnsweredByPolling verify transport c id a arg m s) :
    ∃ m', ComesTo (verifiedBy verify transport) m (a.submit c arg).run (c.resolve id s) m' := by
  cases h with
  | @accepted state delay n served polled enough =>
    have served : verifiedBy verify transport m.state m.now
        (.update c.target (wireMethodName c.method) arg) = ⟨state, delay, .ok ⟨id, .accepted⟩⟩ := served
    obtain ⟨_, m', polled⟩ := polled.comesTo enough
    exact ⟨m', .run_lift_bind (.now _ m) (.run_lift_bind (.ask served)
      (.run_lift_bind (.say _ _ _) polled))⟩
  | @pending state delay n certificate m₁ early served certified pending polled enough =>
    have served : verifiedBy verify transport m.state m.now
        (.update c.target (wireMethodName c.method) arg)
        = ⟨state, delay, .ok ⟨id, .certified certificate⟩⟩ := served
    obtain ⟨_, m', polled⟩ := polled.comesTo enough
    refine ⟨m', .run_lift_bind (.now _ m) (.run_lift_bind (.ask served) ?_)⟩
    refine .run_bind (certified.comesTo nofun) ?_
    simp only [pending, Bool.false_eq_true, if_false]
    exact .run_lift_bind (.say _ m₁ _) polled

/-- Decoding a reply comes to what the schema makes of it. -/
theorem comesTo_decode (env : Environment platform σ) (m : Moment σ) (c : Call) (bs : Bytes) :
    ComesTo env m (c.decode bs) ((c.response.decode bs).mapError ReplyFault.failure) m := by
  rw [Call.decode]
  cases c.response.decode bs with
  | ok v => exact .done env m _
  | error fault => exact (ComesTo.say env m fault.event).bind (.done env m _)

/-- Reporting an outcome comes to it. -/
theorem comesTo_report (env : Environment platform σ) (m : Moment σ) (c : Call)
    (outcome : Except CallFailure β) :
    ComesTo env m (c.report outcome) (outcome.mapError c.failed) m := by
  cases outcome with
  | ok r => exact .done env m _
  | error cause => exact (ComesTo.say env m (c.failureEvent cause)).bind (.done env m _)

/-- What a reply is made into. -/
theorem comesTo_made (env : Environment platform σ) (c : Call) (mapper : Mapper Value β)
    {p : UpdateStep Bytes} {reply : Except CallFailure Bytes}
    (submitted : ComesTo env m p.run reply m') :
    ComesTo env m (do
      let bs ← p
      let v ← ExceptT.mk (c.decode bs)
      mapper 0 v : UpdateStep β).run (c.made mapper reply) m' := by
  cases reply with
  | error cause => exact submitted.run_bind_error
  | ok bs =>
    refine submitted.run_bind ?_
    have decoding := comesTo_decode env m' c bs
    cases decoded : c.response.decode bs with
    | ok v =>
      rw [decoded] at decoding
      rw [Call.made_of_decode decoded]
      exact ComesTo.run_bind (x := ExceptT.mk (c.decode bs)) decoding (.done env m' _)
    | error fault =>
      rw [decoded] at decoding
      rw [Call.made_of_fault decoded]
      exact ComesTo.run_bind_error (x := ExceptT.mk (c.decode bs)) decoding

/-- An update whose submission comes to what the final status resolves to is settled with it. -/
theorem comesTo_update (env : Environment platform σ) {a : Agent} (mapper : Mapper Value β)
    (submitted : ∀ arg, c.encode a.config.layout = .ok arg →
      ∃ m', ComesTo env m (a.submit c arg).run (c.resolve id s) m') :
    ∃ m', ComesTo env m (a.update c mapper) (c.settled a.config.layout mapper id s) m' := by
  have encoding (outcome : Except CallFailure Bytes) :
      ComesTo env m (liftM outcome : UpdateStep Bytes).run outcome m := ComesTo.done env m outcome
  rw [Call.settled]
  cases encoded : c.encode a.config.layout with
  | error cause =>
    have outcome : ComesTo env m (a.updateOutcome c mapper).run (.error cause) m := by
      rw [Agent.updateOutcome, encoded]
      exact (encoding (.error cause)).run_bind_error
    exact ⟨m, outcome.bind (comesTo_report env m c _)⟩
  | ok arg =>
    obtain ⟨m', submitted⟩ := submitted arg encoded
    have outcome :
        ComesTo env m (a.updateOutcome c mapper).run (c.made mapper (c.resolve id s)) m' := by
      rw [Agent.updateOutcome, encoded]
      exact (encoding (.ok arg)).run_bind (comesTo_made env c mapper submitted)
    exact ⟨m', outcome.bind (comesTo_report env m' c _)⟩

end Stretches

/-- **The two paths agree.** An update whose submission is answered at once with the final status of the
request, and one whose final status is polled for, come to the same result, whatever transports and
verifiers they run with and however long these take. -/
theorem update_paths_agree {τ : Type} (a : Agent) (c : Call) (mapper : Mapper Value β) (id : RequestId)
    (s : RequestStatus) (final : s.isTerminal = true)
    (verify : Verifier) (transport : Environment platform σ) (w : World platform σ)
    (atOnce : ∀ arg, c.encode a.config.layout = .ok arg →
      AnsweredAtOnce verify transport c id arg w.moment s)
    (verify' : Verifier) (transport' : Environment platform τ) (w' : World platform τ)
    (polled : ∀ arg, c.encode a.config.layout = .ok arg →
      AnsweredByPolling verify' transport' c id a arg w'.moment s) :
    ((a.update c mapper).run (verifiedBy verify transport) w).2
        = some (c.settled a.config.layout mapper id s) ∧
      ((a.update c mapper).run (verifiedBy verify' transport') w').2
        = some (c.settled a.config.layout mapper id s) := by
  constructor
  · obtain ⟨m, comes⟩ := comesTo_update (verifiedBy verify transport) mapper
      fun arg encoded => (atOnce arg encoded).comesTo final a
    obtain ⟨_, ran, _⟩ := comes w rfl
    rw [ran]
  · obtain ⟨m, comes⟩ := comesTo_update (verifiedBy verify' transport') mapper
      fun arg encoded => (polled arg encoded).comesTo
    obtain ⟨_, ran, _⟩ := comes w' rfl
    rw [ran]

/-- A reply that comes with the answer to the submission, and the same reply polled for through a
reading that fails for the moment and one that tells that the request is being processed. -/
theorem update_paths_agree_replied :
    let id : RequestId := ⟨List.replicate 32 7, rfl⟩
    let replied : HashTree := .labeled statusRoot (.labeled id.bytes
      (.fork (.labeled (Bytes.ofText "reply") (.leaf [192]))
        (.labeled (Bytes.ofText "status") (.leaf (Bytes.ofText "replied")))))
    let processing : HashTree := .labeled statusRoot (.labeled id.bytes
      (.labeled (Bytes.ofText "status") (.leaf (Bytes.ofText "processing"))))
    let verify : Verifier := fun certificate _ _ =>
      .ok (if certificate = [1] then replied else processing)
    let atOnce : Environment platform Unit := fun _ _ r =>
      match r with
      | .query _ _ _ => ⟨(), 0, .error (.ofMessage "no")⟩
      | .update _ _ _ => ⟨(), 5000000, .ok ⟨id, .certified [1]⟩⟩
      | .readState _ _ => ⟨(), 0, .error (.ofMessage "no")⟩
      | .rootKey => ⟨(), 2000000, .ok [9]⟩
      | .openCertificate _ _ _ => ⟨(), 0, .error (.ofMessage "no")⟩
    let polled : Environment platform Nat := fun readings _ r =>
      match r with
      | .query _ _ _ => ⟨readings, 0, .error (.ofMessage "no")⟩
      | .update _ _ _ => ⟨readings, 1000000, .ok ⟨id, .accepted⟩⟩
      | .readState _ _ =>
        match readings with
        | 0 => ⟨1, 4000000, .error (.ofMessage "busy")⟩
        | 1 => ⟨2, 3000000, .ok [2]⟩
        | n + 2 => ⟨n + 3, 2000000, .ok [1]⟩
      | .rootKey => ⟨readings, 7000000, .ok [9]⟩
      | .openCertificate _ _ _ => ⟨readings, 0, .error (.ofMessage "no")⟩
    let a : Agent := ⟨.brisk, .messages, 3⟩
    let c : Call := ⟨⟨[4], by decide⟩, "stop", .null, .null, .null⟩
    let result := some (c.settled a.config.layout Mapper.identity id (.replied [192]))
    (RequestStatus.replied [192]).isTerminal = true ∧
      ((a.update c .identity).run (verifiedBy verify atOnce) (.start () none)).2 = result ∧
      ((a.update c .identity).run (verifiedBy verify polled) (.start 0 none)).2 = result := by
  intro id replied processing verify atOnce polled a c result
  have tells : replied.requestStatus id = .ok (.replied [192]) := rfl
  have early : processing.requestStatus id = .ok .processing := rfl
  refine ⟨rfl, update_paths_agree a c .identity id (.replied [192]) rfl verify atOnce (.start () none)
    ?_ verify polled (.start 0 none) ?_⟩
  · intro arg _
    exact ⟨(), 5000000, [1], _, rfl, [9], replied, .fetched rfl rfl, rfl, tells⟩
  · intro arg _
    have third : PolledAt .messages verify polled c id (PollSchedule.start .brisk 0).advance.advance
        ⟨37000000, 2, some [9]⟩ 1 (.replied [192]) := by
      have due : (PollSchedule.start .brisk 0).advance.advance.next 37000000 = some (14000000, _) := rfl
      have read : ReadAt .messages verify polled c id 5000000000 ⟨51000000, 2, some [9]⟩
          (some (.replied [192])) ⟨53000000, 3, some [9]⟩ := .told rfl ⟨[9], replied, .known rfl, rfl, tells⟩ (by decide)
      exact .last due read rfl
    have second : PolledAt .messages verify polled c id (PollSchedule.start .brisk 0).advance
        ⟨15000000, 1, none⟩ 2 (.replied [192]) := by
      have due : (PollSchedule.start .brisk 0).advance.next 15000000 = some (12000000, _) := rfl
      have fetched : KeyAt polled ⟨30000000, 2, none⟩ [9] ⟨30000000 + 7000000, 2, some [9]⟩ :=
        .fetched rfl rfl
      have read : ReadAt .messages verify polled c id 5000000000 ⟨27000000, 1, none⟩ (some .processing)
          ⟨37000000, 2, some [9]⟩ := .told rfl ⟨[9], processing, fetched, rfl, early⟩ (by decide)
      refine .again due read (fun s e => ?_) third
      rw [← Option.some.inj e]
      rfl
    have first : PolledAt .messages verify polled c id (PollSchedule.start .brisk 0)
        ⟨1000000, 0, none⟩ 3 (.replied [192]) := by
      have due : (PollSchedule.start .brisk 0).next 1000000 = some (10000000, _) := rfl
      have served : polled 0 11000000 (.readState c.target id)
          = ⟨1, 4000000, .error (.ofMessage "busy")⟩ := rfl
      have read : ReadAt .messages verify polled c id 5000000000 ⟨11000000, 0, none⟩ none
          (Moment.after ⟨11000000, 0, none⟩ 4000000 1) := .missed served (by decide) rfl
      exact .again due read (fun s e => nomatch e) second
    exact .accepted rfl first (Nat.le_refl 3)

end CertifiedCalls
