import CertifiedCalls.Call.Query
import CertifiedCalls.Proofs.Trust.Record
import CertifiedCalls.Proofs.Workflow.Course

/-! # Phases of a session
A session goes through **phases** between the delivery of a certificate and its opening: it claims
the root key, fetches it if the claim is granted, makes it known or gives it up, and opens the
certificate. A workflow **obeys** these phases when each thing that it does belongs to the phase in
which it does it. Updates obey them (`obeys_update`), and so do queries, which never leave the first
phase (`obeys_query`). -/

namespace CertifiedCalls

/-- A **phase** of a session. -/
inductive Phase where
  /-- It has nothing to do with the root key. -/
  | idle
  /-- It has a certificate to open. -/
  | holding (certificate : Bytes)
  /-- It knows the key with which to open it. -/
  | told (certificate key : Bytes)
  /-- It is the one to fetch the key. -/
  | granted (certificate : Bytes)
  /-- It has said that it fetches the key. -/
  | announced (certificate : Bytes)
  /-- It waits for the answer to the fetch of a number. -/
  | asking (certificate : Bytes) (number : Nat)
  /-- It has fetched the key. -/
  | fetched (certificate key : Bytes)
  /-- It has failed to fetch the key. -/
  | failed
deriving DecidableEq

namespace Phase

/-- Whether a session in a phase is the one to fetch the key. -/
def Fetching : Phase → Prop
  | .idle => False
  | .holding _ => False
  | .told _ _ => False
  | _ => True

/-- Whether a session in a phase may leave the turn to others. -/
def Resting : Phase → Prop
  | .announced _ => False
  | .fetched _ _ => False
  | .failed => False
  | _ => True

/-- Whether a session in a phase makes a request, with the certificate that it fetches the key for. -/
def Asks (certificate : Bytes) : Phase → PlatformRequest → Prop
  | .announced c, .rootKey => c = certificate
  | .told c key, .openCertificate c' key' _ => c' = c ∧ key' = key
  | .idle, .query _ _ _ => True
  | .idle, .update _ _ _ => True
  | .idle, .readState _ _ => True
  | _, _ => False

/-- The phase after the answer to a request, or after it was given up. -/
def answered (certificate : Bytes) : (r : PlatformRequest) → Option (platform.Answer r) → Phase
  | .rootKey, some (.ok key) => .fetched certificate key
  | .rootKey, some (.error _) => .failed
  | .rootKey, none => .failed
  | r, answer => (answer.bind r.certificate?).elim .idle .holding

end Phase

namespace Workflow

variable {α β : Type}

/-- A workflow **obeys** the phases from one on, and ends with a result in a phase after it. -/
def Obeys (ends : α → Phase → Prop) : Workflow platform α → Phase → Prop
  | .done a, phase => ends a phase
  | .unfinished, phase => phase = .idle
  | .emit e next, phase => (phase = .idle ∧ next.Obeys ends .idle) ∨
    ∃ c, phase = .granted c ∧ e = Call.rootKeyEvent ∧ next.Obeys ends (.announced c)
  | .clock next, phase => ∀ now, (next now).Obeys ends phase
  | .sleep _ next, phase => phase = .idle ∧ next.Obeys ends .idle
  | .request r _ next, phase => ∃ c, phase.Asks c r ∧
    ∀ answer, (next answer).Obeys ends (.answered c r answer)
  | .claim _ next, phase => ∃ c, phase = .holding c ∧
    (∀ key, (next (.known key)).Obeys ends (.told c key)) ∧
    (next .granted).Obeys ends (.granted c) ∧ (next .lapsed).Obeys ends .idle
  | .publish key next, phase => ∃ c, phase = .fetched c key ∧ next.Obeys ends (.told c key)
  | .release next, phase => phase = .failed ∧ next.Obeys ends .idle

/-- The end in the first phase. -/
def endsIdle : α → Phase → Prop := fun _ phase => phase = .idle

namespace Obeys

variable {mid : α → Phase → Prop} {ends : β → Phase → Prop} {phase : Phase}

/-- One workflow after another obeys the phases when the second does from where the first ends. -/
theorem bind {p : Workflow platform α} {f : α → Workflow platform β} (first : p.Obeys mid phase)
    (second : ∀ a phase, mid a phase → (f a).Obeys ends phase) : (p.bind f).Obeys ends phase := by
  induction p generalizing phase with
  | done a => exact second a phase first
  | unfinished => exact first
  | emit e next ih =>
    rcases first with ⟨idle, rest⟩ | ⟨c, granted, said, rest⟩
    · exact .inl ⟨idle, ih rest⟩
    · exact .inr ⟨c, granted, said, ih rest⟩
  | clock next ih => exact fun now => ih now (first now)
  | sleep nanos next ih => exact ⟨first.1, ih first.2⟩
  | request r limit next ih =>
    obtain ⟨c, asks, rest⟩ := first
    exact ⟨c, asks, fun answer => ih answer (rest answer)⟩
  | claim limit next ih =>
    obtain ⟨c, holding, known, granted, lapsed⟩ := first
    exact ⟨c, holding, fun key => ih _ (known key), ih _ granted, ih _ lapsed⟩
  | publish key next ih =>
    obtain ⟨c, fetched, rest⟩ := first
    exact ⟨c, fetched, ih rest⟩
  | release next ih => exact ⟨first.1, ih first.2⟩

/-- One workflow after another that ends in the first phase. -/
theorem bind_idle {p : Workflow platform α} {f : α → Workflow platform β}
    (first : p.Obeys endsIdle phase) (second : ∀ a, (f a).Obeys ends .idle) :
    (p.bind f).Obeys ends phase := by
  refine first.bind fun a phase idle => ?_
  rw [show phase = .idle from idle]
  exact second a

/-- The end of a stretch that may fail: with a result as told, or with a failure in the first
phase. -/
def orFails {γ : Type} (ends : γ → Phase → Prop) : Except CallFailure γ → Phase → Prop
  | .ok a, phase => ends a phase
  | .error _, phase => phase = .idle

/-- One stretch after another, where the first may fail. -/
theorem run_bind {x : UpdateStep α} {f : α → UpdateStep β}
    (first : x.run.Obeys (orFails mid) phase)
    (second : ∀ a phase, mid a phase → (f a).run.Obeys (orFails ends) phase) :
    (x >>= f).run.Obeys (orFails ends) phase := by
  rw [Course.run_bind]
  refine first.bind fun outcome phase reached => ?_
  cases outcome with
  | ok a => exact second a phase reached
  | error e => exact reached

/-- One stretch after another, where the first cannot fail. -/
theorem run_lift_bind {w : Workflow platform α} {f : α → UpdateStep β} (first : w.Obeys mid phase)
    (second : ∀ a phase, mid a phase → (f a).run.Obeys (orFails ends) phase) :
    (UpdateStep.of w >>= f).run.Obeys (orFails ends) phase := by
  rw [UpdateStep.of, Course.run_lift_bind]
  exact first.bind second

/-- One stretch after another that may fail and ends in the first phase. -/
theorem run_bind_idle {x : UpdateStep α} {f : α → UpdateStep β}
    (first : x.run.Obeys (orFails endsIdle) phase)
    (second : ∀ a, (f a).run.Obeys (orFails ends) .idle) :
    (x >>= f).run.Obeys (orFails ends) phase := by
  refine first.run_bind fun a phase idle => ?_
  rw [show phase = .idle from idle]
  exact second a

/-- One stretch after another that cannot fail and ends in the first phase. -/
theorem run_lift_bind_idle {w : Workflow platform α} {f : α → UpdateStep β}
    (first : w.Obeys endsIdle phase) (second : ∀ a, (f a).run.Obeys (orFails ends) .idle) :
    (UpdateStep.of w >>= f).run.Obeys (orFails ends) phase := by
  rw [UpdateStep.of, Course.run_lift_bind]
  exact first.bind_idle second

/-- A result that is there does not leave the first phase. -/
theorem outcome (x : Except CallFailure α) :
    (liftM x : UpdateStep α).run.Obeys (orFails endsIdle) .idle := by
  cases x <;> exact rfl

/-- An event may be recorded in the first phase. -/
theorem say (e : Event) : (Workflow.say e).Obeys endsIdle .idle := .inl ⟨rfl, rfl⟩

/-- The first phase may be slept through. -/
theorem pause (nanos : Nat) : (Workflow.pause (I := platform) nanos).Obeys endsIdle .idle := ⟨rfl, rfl⟩

/-- The clock may be looked at in any phase. -/
theorem now (phase : Phase) : Workflow.now.Obeys (fun _ after => after = phase) phase := fun _ => rfl

/-- A request may be made in its phase, and its answer waited for up to a limit. -/
theorem askWithin {c : Bytes} {r : PlatformRequest} (asks : phase.Asks c r) (limit : Option Nat) :
    (PlatformRequest.askWithin limit r).Obeys (fun answer after => after = .answered c r answer)
      phase :=
  ⟨c, asks, fun _ => rfl⟩

/-- A request other than that for the root key may be made, and its answer waited for. -/
theorem ask {c : Bytes} {r : PlatformRequest} (asks : phase.Asks c r) (other : r ≠ .rootKey) :
    (PlatformRequest.ask r).Obeys (fun answer after => after = .answered c r (some answer)) phase := by
  refine ⟨c, asks, fun answer => ?_⟩
  cases answer with
  | some answer => rfl
  | none =>
    show Phase.answered c r none = .idle
    cases r with
    | rootKey => exact absurd rfl other
    | _ => rfl

end Obeys

end Workflow

open Workflow (Obeys endsIdle)
open Workflow.Obeys (orFails)

variable {β : Type}

section Reporting

/-- Decoding a reply does not leave the first phase. -/
theorem obeys_decode (c : Call) (reply : Bytes) :
    (c.decode reply : Workflow platform (Except CallFailure Value)).Obeys (orFails endsIdle) .idle := by
  rw [Call.decode]
  split
  · exact rfl
  · exact .inl ⟨rfl, rfl⟩

/-- Reporting an outcome does not either. -/
theorem obeys_report (c : Call) (outcome : Except CallFailure β) :
    (c.report outcome : Workflow platform (Except FailedCall β)).Obeys endsIdle .idle := by
  cases outcome with
  | ok result => exact rfl
  | error cause => exact .inl ⟨rfl, rfl⟩

end Reporting

/-! ### Queries -/

section Queries

/-- An attempt at a query does not leave the first phase. -/
theorem obeys_queryOnce (c : Call) (classify : TransportFailure → CallFailure) (arg : Bytes)
    (mapper : Mapper Value β) (mapped : Nat) :
    (c.queryOnce classify arg mapper mapped).Obeys endsIdle .idle := by
  have asks : Phase.idle.Asks [] (.query c.target (wireMethodName c.method) arg) := trivial
  refine Obeys.bind (.ask asks nofun) fun answer phase reached => ?_
  subst reached
  match answer with
  | .error _ => exact rfl
  | .ok (.rejected _) => exact rfl
  | .ok (.replied reply) =>
    refine Obeys.bind (obeys_decode c reply) fun outcome phase reached => ?_
    cases outcome <;> exact reached

/-- Attempts that do not leave the first phase do not leave it one after another. -/
theorem obeys_attempts (b : Backoff) (args : String) {attempt : Attempt platform β}
    (one : ∀ mapped, (attempt mapped).Obeys endsIdle .idle) (left : Nat) (retry : UInt32)
    (mapped : Nat) :
    (b.attempts args attempt left retry mapped).Obeys endsIdle .idle := by
  -- On the retries that are left.
  induction left generalizing retry mapped with
  | zero =>
    rw [Backoff.attempts]
    refine Obeys.bind_idle (one mapped) fun reached => ?_
    match reached with
    | (mapped, .ok _) => exact rfl
    | (mapped, .error cause) =>
      simp only
      split
      · exact .inl ⟨rfl, rfl⟩
      · exact rfl
  | succ left ih =>
    rw [Backoff.attempts]
    refine Obeys.bind_idle (one mapped) fun reached => ?_
    match reached with
    | (mapped, .ok _) => exact rfl
    | (mapped, .error cause) =>
      simp only
      split
      · exact .inl ⟨rfl, rfl, ih (retry + 1) mapped⟩
      · exact rfl

/-- **Queries obey the phases**, and never leave the first. -/
theorem obeys_query (a : Agent) (c : Call) (mapper : Mapper Value β) :
    (a.query c mapper).Obeys endsIdle .idle := by
  refine Obeys.bind_idle ?_ fun outcome => obeys_report c outcome
  rw [Agent.queryOutcome]
  cases c.encode a.config.layout with
  | error cause => exact rfl
  | ok arg => exact obeys_attempts _ _ (obeys_queryOnce c _ arg mapper) _ _ _

end Queries

/-! ### Updates -/

section Updates

variable {k : Classifier} {c : Call} {certificate arg : Bytes}

/-- What asking for the root key ends with: the key, to open the certificate with, or nothing. -/
def endsTold (certificate : Bytes) : Option Bytes → Phase → Prop
  | some key, phase => phase = .told certificate key
  | none, phase => phase = .idle

/-- Fetching the root key obeys the phases. -/
theorem obeys_fetchRootKey (limit : Option Nat) :
    (Call.fetchRootKey k limit).run.Obeys (orFails (endsTold certificate)) (.granted certificate) := by
  have said : (Workflow.say Call.rootKeyEvent).Obeys
      (fun _ phase => phase = .announced certificate) (.granted certificate) :=
    .inr ⟨certificate, rfl, rfl, rfl⟩
  refine .run_lift_bind said fun _ phase announced => ?_
  subst announced
  have asks : (Phase.announced certificate).Asks certificate .rootKey := rfl
  refine .run_lift_bind (.askWithin asks limit) fun answer phase reached => ?_
  subst reached
  match answer with
  | some (.ok key) =>
    have published : (Workflow.publishKey key).Obeys
        (fun _ phase => phase = .told certificate key) (.fetched certificate key) :=
      ⟨certificate, rfl, rfl⟩
    exact .run_lift_bind published fun _ phase told => told
  | some (.error failure) =>
    have released : Workflow.releaseKey.Obeys endsIdle .failed := ⟨rfl, rfl⟩
    exact .run_lift_bind_idle released fun _ => rfl
  | none =>
    have released : Workflow.releaseKey.Obeys endsIdle .failed := ⟨rfl, rfl⟩
    exact .run_lift_bind_idle released fun _ => rfl

/-- What a claim on the root key ends with. -/
def endsClaimed (certificate : Bytes) : Claim → Phase → Prop
  | .known key, phase => phase = .told certificate key
  | .granted, phase => phase = .granted certificate
  | .lapsed, phase => phase = .idle

/-- So does a claim on it, and what follows. -/
theorem obeys_rootKey (limit : Option Nat) :
    (Call.rootKey k limit).run.Obeys (orFails (endsTold certificate)) (.holding certificate) := by
  have claimed : (Workflow.claimKey limit).Obeys (endsClaimed certificate)
      (.holding certificate) :=
    ⟨certificate, rfl, fun _ => rfl, rfl, rfl⟩
  refine .run_lift_bind claimed fun outcome phase reached => ?_
  cases outcome with
  | known key => exact reached
  | granted => exact reached ▸ obeys_fetchRootKey limit
  | lapsed => exact reached

/-- So does opening a certificate. -/
theorem obeys_certifiedStatus (limit : Option Nat) (id : RequestId) :
    (c.certifiedStatus k limit id certificate).run.Obeys (orFails endsIdle) (.holding certificate) := by
  refine .run_bind (obeys_rootKey limit) fun told phase reached => ?_
  cases told with
  | none => exact reached
  | some key =>
    have asks : (Phase.told certificate key).Asks certificate
        (.openCertificate certificate key c.target) := ⟨rfl, rfl⟩
    rw [show phase = .told certificate key from reached]
    refine .run_lift_bind_idle (.ask asks nofun) fun opened => ?_
    match opened with
    | .error failure => exact rfl
    | .ok tree =>
      simp only
      split <;> exact rfl

/-- So does one reading. -/
theorem obeys_readStatus (limit : Nat) (id : RequestId) :
    (c.readStatus k limit id).run.Obeys (orFails endsIdle) .idle := by
  have asks : Phase.idle.Asks [] (.readState c.target id) := trivial
  refine .run_lift_bind (.askWithin asks (some limit)) fun answer phase reached => ?_
  subst reached
  match answer with
  | none => exact rfl
  | some (.ok certificate) => exact obeys_certifiedStatus (some limit) id
  | some (.error failure) =>
    simp only
    split
    · exact .run_lift_bind_idle (.say _) fun _ => rfl
    · exact rfl

/-- So does giving up. -/
theorem obeys_timeOut (schedule : PollSchedule) (id : RequestId) :
    (Call.timeOut schedule id).run.Obeys (orFails endsIdle) .idle :=
  .run_lift_bind_idle (.now .idle) fun _ => rfl

/-- So does polling. -/
theorem obeys_poll (id : RequestId) (readings : Nat) (schedule : PollSchedule) :
    (c.poll k id readings schedule).run.Obeys (orFails endsIdle) .idle := by
  -- On the readings, for all schedules.
  induction readings generalizing schedule with
  | zero => exact rfl
  | succ readings ih =>
    refine .run_lift_bind_idle (.now .idle) fun now => ?_
    split
    · exact obeys_timeOut schedule id
    · refine .run_lift_bind_idle (.pause _) fun _ => ?_
      refine .run_bind_idle (obeys_readStatus _ id) fun reading => ?_
      match reading with
      | .missed => exact ih _
      | .lapsed => exact .run_lift_bind_idle (.say _) fun _ => obeys_timeOut schedule id
      | .status s =>
        simp only
        split
        · refine .run_lift_bind_idle (.now .idle) fun _ => ?_
          exact .run_lift_bind_idle (.say _) fun _ => .outcome _
        · exact ih _

/-- So does what the answer to a submission leads to. -/
theorem obeys_await (a : Agent) (submitted : Nat) (id : RequestId) (answer : UpdateAnswer) :
    (a.await c submitted id answer).run.Obeys (orFails endsIdle)
      (.answered [] (.update c.target (wireMethodName c.method) arg) (some (.ok ⟨id, answer⟩))) := by
  match answer with
  | .certified certificate =>
    refine .run_bind_idle (obeys_certifiedStatus none id) fun reading => ?_
    match reading with
    | .missed | .lapsed => exact obeys_poll id _ _
    | .status s =>
      simp only
      split
      · exact .outcome _
      · exact .run_lift_bind_idle (.say _) fun _ => obeys_poll id _ _
  | .accepted => exact .run_lift_bind_idle (.say _) fun _ => obeys_poll id _ _
  | .unexpected status => exact rfl

/-- So does a submission. -/
theorem obeys_submit (a : Agent) (c : Call) (arg : Bytes) :
    (a.submit c arg).run.Obeys (orFails endsIdle) .idle := by
  refine .run_lift_bind_idle (.now .idle) fun submitted => ?_
  have asks : Phase.idle.Asks [] (.update c.target (wireMethodName c.method) arg) := trivial
  refine .run_lift_bind (.ask asks nofun) fun answer phase reached => ?_
  subst reached
  match answer with
  | .error failure => exact rfl
  | .ok ⟨id, answer⟩ => exact obeys_await a submitted id answer

/-- So does whatever leads to the outcome of an update. -/
theorem obeys_updateOutcome (a : Agent) (c : Call) (mapper : Mapper Value β) :
    (a.updateOutcome c mapper).run.Obeys (orFails endsIdle) .idle := by
  refine .run_bind_idle (.outcome _) fun arg => ?_
  refine .run_bind_idle (obeys_submit a c arg) fun reply => ?_
  exact .run_bind_idle (obeys_decode c reply) fun v => .outcome _

/-- **Updates obey the phases.** -/
theorem obeys_update (a : Agent) (c : Call) (mapper : Mapper Value β) :
    (a.update c mapper).Obeys endsIdle .idle := by
  refine (obeys_updateOutcome a c mapper).bind fun outcome phase reached => ?_
  cases outcome with
  | ok result => exact reached
  | error cause => exact reached ▸ obeys_report c (.error cause : Except CallFailure β)

end Updates

end CertifiedCalls
