import CertifiedCalls.Proofs.Call.Events
import CertifiedCalls.Proofs.Workflow.Course

/-! # What calls ask for and record
A query asks for nothing but itself, always with the octets of its arguments (`confined_query`). An
update makes no query and submits nothing but itself, with the octets of its arguments
(`confined_update`). Whatever either records shows the arguments by their text. -/

namespace CertifiedCalls

variable {β : Type}

namespace PlatformRequest

/-- The requests that are **queries** of a call in a layout. -/
def Queries (c : Call) (layout : Layout) : PlatformRequest → Prop
  | .query target method arg =>
    target = c.target ∧ method = wireMethodName c.method ∧ c.encode layout = .ok arg
  | _ => False

/-- The requests that **serve an update** in a layout: no queries, and no submissions but its own. -/
def Serves (c : Call) (layout : Layout) : PlatformRequest → Prop
  | .query _ _ _ => False
  | .update target method arg =>
    target = c.target ∧ method = wireMethodName c.method ∧ c.encode layout = .ok arg
  | _ => True

end PlatformRequest

open PlatformRequest (Queries Serves)
open Workflow (Keeps)

section Reporting

variable {asks : PlatformRequest → Prop} {publishes : Bytes → Prop} {text : String}

/-- Decoding a reply asks for nothing and shows no arguments. -/
theorem keeps_decode (c : Call) (bs : Bytes) :
    (c.decode bs : Workflow platform (Except CallFailure Value)).Keeps (Event.Shows text) asks
      publishes := by
  rw [Call.decode]
  split
  · trivial
  · exact ⟨ReplyFault.shows_event _, trivial⟩

/-- Reporting an outcome asks for nothing and shows the arguments of the call. -/
theorem keeps_report (c : Call) (outcome : Except CallFailure β) :
    (c.report outcome : Workflow platform (Except FailedCall β)).Keeps
      (Event.Shows c.args.toText) asks publishes := by
  cases outcome with
  | ok result => trivial
  | error cause => exact ⟨c.shows_failureEvent cause, trivial⟩

end Reporting

/-! ### Queries -/

section Queries

variable {c : Call} {layout : Layout} {arg : Bytes} {text : String}

/-- An attempt at a query asks for the query. -/
theorem keeps_queryOnce (classify : TransportFailure → CallFailure)
    (encoded : c.encode layout = .ok arg) (mapper : Mapper Value β) (mapped : Nat) :
    (c.queryOnce classify arg mapper mapped).Keeps (Event.Shows text) (Queries c layout)
      fun _ => False := by
  refine Keeps.bind (.ask ⟨rfl, rfl, encoded⟩) fun answer => ?_
  match answer with
  | .error _ | .ok (.rejected _) => trivial
  | .ok (.replied reply) =>
    refine Keeps.bind (keeps_decode c reply) fun outcome => ?_
    cases outcome <;> trivial

/-- Attempts ask for nothing but what each of them asks for, and show the arguments that are given for
them. -/
theorem keeps_attempts {asks : PlatformRequest → Prop} {publishes : Bytes → Prop} (b : Backoff)
    {attempt : Attempt platform β}
    (one : ∀ mapped, (attempt mapped).Keeps (Event.Shows text) asks publishes)
    (left : Nat) (retry : UInt32) (mapped : Nat) :
    (b.attempts text attempt left retry mapped).Keeps (Event.Shows text) asks publishes := by
  -- On the retries that are left.
  induction left generalizing retry mapped with
  | zero =>
    rw [Backoff.attempts]
    refine Keeps.bind (one mapped) fun ⟨mapped, outcome⟩ => ?_
    match outcome with
    | .ok _ => trivial
    | .error cause =>
      simp only
      split
      · exact ⟨Backoff.shows_exhaustedEvent retry cause, trivial⟩
      · trivial
  | succ left ih =>
    rw [Backoff.attempts]
    refine Keeps.bind (one mapped) fun ⟨mapped, outcome⟩ => ?_
    match outcome with
    | .ok _ => trivial
    | .error cause =>
      simp only
      split
      · exact ⟨b.shows_retryEvent retry cause, ih (retry + 1) mapped⟩
      · trivial

/-- **A query keeps to itself**, and shows its arguments by their text. -/
theorem keeps_query (a : Agent) (c : Call) (mapper : Mapper Value β) :
    (a.query c mapper).Keeps (Event.Shows c.args.toText) (Queries c a.config.layout)
      fun _ => False := by
  refine Keeps.bind ?_ fun outcome => keeps_report c outcome
  rw [Agent.queryOutcome]
  cases encoded : c.encode a.config.layout with
  | error cause => trivial
  | ok arg => exact keeps_attempts _ (keeps_queryOnce _ encoded mapper) _ _ _

/-- **A query asks for nothing but itself.** -/
theorem confined_query (a : Agent) (c : Call) (mapper : Mapper Value β) :
    (a.query c mapper).Confined (Queries c a.config.layout) fun _ => False :=
  (keeps_query a c mapper).confined

end Queries

/-! ### Updates -/

section Updates

variable {k : Classifier} {c : Call} {layout : Layout} {text : String}

/-- Fetching the root key serves an update, and shows no arguments. -/
theorem keeps_fetchRootKey (limit : Option Nat) :
    (Call.fetchRootKey k limit).run.Keeps (Event.Shows text) (Serves c layout) fun _ => True := by
  refine .run_lift_bind ⟨Call.shows_rootKeyEvent, trivial⟩ fun _ => ?_
  refine .run_lift_bind ⟨trivial, fun _ => trivial⟩ fun answer => ?_
  match answer with
  | some (.ok key) => exact .run_lift_bind ⟨trivial, trivial⟩ fun _ => trivial
  | some (.error failure) => exact .run_lift_bind trivial fun _ => trivial
  | none => exact .run_lift_bind trivial fun _ => trivial

/-- So does a claim on it. -/
theorem keeps_rootKey (limit : Option Nat) :
    (Call.rootKey k limit).run.Keeps (Event.Shows text) (Serves c layout) fun _ => True := by
  refine .run_lift_bind (fun _ => trivial) fun outcome => ?_
  match outcome with
  | .known _ | .lapsed => trivial
  | .granted => exact keeps_fetchRootKey limit

/-- So does opening a certificate. -/
theorem keeps_certifiedStatus (limit : Option Nat) (id : RequestId) (certificate : Bytes) :
    (c.certifiedStatus k limit id certificate).run.Keeps (Event.Shows text) (Serves c layout)
      fun _ => True := by
  refine .run_bind (keeps_rootKey limit) fun told => ?_
  match told with
  | none => trivial
  | some key =>
    refine .run_lift_bind (.ask trivial) fun opened => ?_
    match opened with
    | .error failure => trivial
    | .ok tree =>
      simp only
      split <;> trivial

/-- So does one reading. -/
theorem keeps_readStatus (limit : Nat) (id : RequestId) :
    (c.readStatus k limit id).run.Keeps (Event.Shows text) (Serves c layout) fun _ => True := by
  refine .run_lift_bind ⟨trivial, fun _ => trivial⟩ fun answer => ?_
  match answer with
  | none => trivial
  | some (.ok certificate) => exact keeps_certifiedStatus (some limit) id certificate
  | some (.error failure) =>
    simp only
    split
    · exact .run_lift_bind ⟨Call.shows_missedEvent id _, trivial⟩ fun _ => trivial
    · trivial

/-- So does giving up. -/
theorem keeps_timeOut (schedule : PollSchedule) (id : RequestId) :
    (Call.timeOut schedule id).run.Keeps (Event.Shows text) (Serves c layout) fun _ => True :=
  .run_lift_bind (fun _ => trivial) fun _ => trivial

/-- So does polling. -/
theorem keeps_poll (id : RequestId) (readings : Nat) (schedule : PollSchedule) :
    (c.poll k id readings schedule).run.Keeps (Event.Shows text) (Serves c layout)
      fun _ => True := by
  -- On the readings, for all schedules.
  induction readings generalizing schedule with
  | zero => trivial
  | succ readings ih =>
    refine .run_lift_bind (fun _ => trivial) fun now => ?_
    split
    · exact keeps_timeOut schedule id
    · refine .run_lift_bind trivial fun _ => ?_
      refine .run_bind (keeps_readStatus _ id) fun reading => ?_
      match reading with
      | .missed => exact ih _
      | .lapsed =>
        exact .run_lift_bind ⟨Call.shows_lapsedEvent id, trivial⟩ fun _ => keeps_timeOut schedule id
      | .status s =>
        simp only
        split
        · refine .run_lift_bind (fun _ => trivial) fun _ => ?_
          exact .run_lift_bind ⟨Call.shows_finalEvent id _, trivial⟩ fun _ => trivial
        · exact ih _

/-- So does what the answer to a submission leads to. -/
theorem keeps_await (a : Agent) (submitted : Nat) (id : RequestId) (answer : UpdateAnswer) :
    (a.await c submitted id answer).run.Keeps (Event.Shows text) (Serves c layout)
      fun _ => True := by
  match answer with
  | .certified certificate =>
    refine .run_bind (keeps_certifiedStatus none id certificate) fun reading => ?_
    match reading with
    | .missed | .lapsed => exact keeps_poll id _ _
    | .status s =>
      simp only
      split
      · trivial
      · exact .run_lift_bind ⟨c.shows_pendingEvent id, trivial⟩ fun _ => keeps_poll id _ _
  | .accepted => exact .run_lift_bind ⟨c.shows_acceptedEvent id, trivial⟩ fun _ => keeps_poll id _ _
  | .unexpected status => trivial

/-- So does a submission of the octets of the arguments. -/
theorem keeps_submit (a : Agent) {arg : Bytes} (encoded : c.encode layout = .ok arg) :
    (a.submit c arg).run.Keeps (Event.Shows text) (Serves c layout) fun _ => True := by
  refine .run_lift_bind (fun _ => trivial) fun submitted => ?_
  refine .run_lift_bind (.ask ⟨rfl, rfl, encoded⟩) fun answer => ?_
  match answer with
  | .error failure => trivial
  | .ok submission => exact keeps_await a submitted _ _

/-- **An update keeps to itself**, and shows its arguments by their text. -/
theorem keeps_update (a : Agent) (c : Call) (mapper : Mapper Value β) :
    (a.update c mapper).Keeps (Event.Shows c.args.toText) (Serves c a.config.layout)
      fun _ => True := by
  refine Keeps.bind ?_ fun outcome => keeps_report c outcome
  rw [Agent.updateOutcome]
  cases encoded : c.encode a.config.layout with
  | error cause => trivial
  | ok arg =>
    -- What follows the encoding is a submission, whose reply is decoded and mapped.
    show (a.submit c arg >>= fun reply => ExceptT.mk (c.decode reply) >>= fun v =>
      (liftM (mapper 0 v) : UpdateStep β)).run.Keeps _ _ _
    refine .run_bind (keeps_submit a encoded) fun reply => ?_
    exact .run_bind (keeps_decode c reply) fun v => trivial

/-- **An update makes no query and submits nothing but itself.** -/
theorem confined_update (a : Agent) (c : Call) (mapper : Mapper Value β) :
    (a.update c mapper).Confined (Serves c a.config.layout) fun _ => True :=
  (keeps_update a c mapper).confined

end Updates

end CertifiedCalls
