import CertifiedCalls.Call.Update
import CertifiedCalls.Proofs.Workflow.Course

/-! # Fetching the root key
Whatever root key an update makes known to the other calls of its agent, it has claimed and fetched
before (`keysFetched_update`). -/

namespace CertifiedCalls

variable {β : Type} {k : Classifier} {caller : Nat}

/-- A deed that answers the request for the root key. -/
def AnswersKey (key : Bytes) (deed : Deed platform) : Prop :=
  ∃ number, deed = .kept (.answered (I := platform) number .rootKey (.ok key))

/-- Keys are **fetched** before they are made known: whatever key is published, a claim was granted
and the root key was answered before. -/
def KeysFetched (acts : List (Act platform)) : Prop :=
  ∀ key, Preceded (· = .published key) (· = .claimed .granted) acts ∧
    Preceded (· = .published key) (AnswersKey key) acts

namespace KeysFetched

/-- Nothing is published among no acts. -/
theorem nil : KeysFetched [] := fun _ =>
  ⟨.of_none (List.forall_mem_nil _), .of_none (List.forall_mem_nil _)⟩

/-- Keys are fetched among acts when they are in front and after. -/
theorem append (as bs : List (Act platform)) (front : KeysFetched as) (after : KeysFetched bs) :
    KeysFetched (as ++ bs) := fun key =>
  ⟨(front key).1.append (after key).1, (front key).2.append (after key).2⟩

/-- Keys are fetched among acts that publish none. -/
theorem of_unpublished {acts : List (Act platform)}
    (none : ∀ a ∈ acts, ∀ key, ¬ a.deed = .published key) : KeysFetched acts := fun key =>
  ⟨.of_none fun a mem => none a mem key, .of_none fun a mem => none a mem key⟩

/-- Keys are fetched in front when they are in front and after. -/
theorem left {as bs : List (Act platform)} (h : KeysFetched (as ++ bs)) : KeysFetched as := fun key =>
  ⟨(h key).1.left, (h key).2.left⟩

/-- A workflow that publishes nothing fetches all keys that it publishes. -/
theorem of_quiet {p : Workflow platform β}
    (quiet : p.Confined (fun _ => True) (fun _ => False)) : p.Always caller KeysFetched := by
  intro t acts q u h
  refine of_unpublished fun a mem key published => ?_
  have within := quiet.of_course h a mem
  rw [published] at within
  exact within

end KeysFetched

open Workflow (Always)

/-- A key that is published when the root key is fetched was the answer. -/
theorem preceded_fetchRootKey (limit : Option Nat) (key : Bytes) :
    (Call.fetchRootKey k limit).run.Always caller
      (Preceded (· = .published key) (AnswersKey key)) := by
  intro t acts q u h
  -- Nothing is published before the answer, and only the key that was answered after it.
  cases h with
  | here => exact .of_none (by simp)
  | emit rest =>
    cases rest with
    | here => exact .of_none (by simp)
    | abandoned number delay late rest =>
      cases rest with
      | here => exact .of_none (by simp)
      | release rest =>
        obtain ⟨rfl, _⟩ := rest.of_done
        exact .of_none (by simp)
    | answered number delay answer inTime rest =>
      match answer with
      | .error failure =>
        cases rest with
        | here => exact .of_none (by simp)
        | release rest =>
          obtain ⟨rfl, _⟩ := rest.of_done
          exact .of_none (by simp)
      | .ok told =>
        cases rest with
        | here => exact .of_none (by simp)
        | publish rest =>
          obtain ⟨rfl, _⟩ := rest.of_done
          by_cases same : told = key
          · subst same
            exact .cons (by simp) (.cons (by simp) (.of_first (by simp) ⟨number, rfl⟩))
          · refine .of_none fun a mem => ?_
            have other : ¬ (.published told : Deed platform) = .published key :=
              fun e => same (Deed.published.inj e)
            simp only [List.mem_cons, List.not_mem_nil, or_false] at mem
            rcases mem with rfl | rfl | rfl | rfl
            · simp
            · simp
            · simp
            · exact other

/-- A claim on the root key fetches what it publishes. -/
theorem keysFetched_rootKey (limit : Option Nat) :
    (Call.rootKey k limit).run.Always caller KeysFetched := by
  intro t acts q u h key
  cases h with
  | here => exact KeysFetched.nil key
  | claim outcome wait inTime late rest =>
    -- Only a claim that is granted goes on to fetch the key, and so to publish one.
    match outcome with
    | .known told | .lapsed =>
      obtain ⟨rfl, _⟩ := rest.of_done
      exact ⟨.of_none (by simp), .of_none (by simp)⟩
    | .granted =>
      exact ⟨.of_first (by simp) rfl, .cons (by simp) (preceded_fetchRootKey limit key _ _ _ _ rest)⟩

/-- So does opening a certificate. -/
theorem keysFetched_certifiedStatus (c : Call) (limit : Option Nat) (id : RequestId)
    (certificate : Bytes) :
    (c.certifiedStatus k limit id certificate).run.Always caller KeysFetched := by
  refine .run_bind .nil .append (keysFetched_rootKey limit) fun told => ?_
  match told with
  | none => exact .done .nil _
  | some key =>
    refine .run_lift_bind .append (.of_quiet ⟨trivial, fun a => by cases a <;> trivial⟩)
      fun opened => ?_
    match opened with
    | .error failure => exact .done .nil _
    | .ok tree =>
      simp only
      split <;> exact .done .nil _

/-- So does one reading. -/
theorem keysFetched_readStatus (c : Call) (limit : Nat) (id : RequestId) :
    (c.readStatus k limit id).run.Always caller KeysFetched := by
  refine .run_lift_bind .append (.of_quiet ⟨trivial, fun _ => trivial⟩) fun answer => ?_
  match answer with
  | none => exact .done .nil _
  | some (.ok certificate) => exact keysFetched_certifiedStatus c (some limit) id certificate
  | some (.error failure) =>
    simp only
    split
    · exact .run_lift_bind .append (.of_quiet trivial) fun _ => .done .nil _
    · exact .done .nil _

/-- So does giving up. -/
theorem keysFetched_timeOut (schedule : PollSchedule) (id : RequestId) :
    (Call.timeOut schedule id).run.Always caller KeysFetched :=
  .run_lift_bind .append (.of_quiet fun _ => trivial) fun _ => .done .nil _

/-- So does polling. -/
theorem keysFetched_poll (c : Call) (id : RequestId) (readings : Nat) (schedule : PollSchedule) :
    (c.poll k id readings schedule).run.Always caller KeysFetched := by
  -- On the readings, for all schedules.
  induction readings generalizing schedule with
  | zero => exact .of_quiet trivial
  | succ readings ih =>
    refine .run_lift_bind .append (.of_quiet fun _ => trivial) fun now => ?_
    split
    · exact keysFetched_timeOut schedule id
    · refine .run_lift_bind .append (.of_quiet trivial) fun _ => ?_
      refine .run_bind .nil .append (keysFetched_readStatus c _ id) fun reading => ?_
      match reading with
      | .missed => exact ih _
      | .lapsed =>
        exact .run_lift_bind .append (.of_quiet trivial) fun _ => keysFetched_timeOut schedule id
      | .status s =>
        simp only
        split
        · refine .run_lift_bind .append (.of_quiet fun _ => trivial) fun _ => ?_
          exact .run_lift_bind .append (.of_quiet trivial) fun _ => .done .nil _
        · exact ih _

/-- So does what the answer to a submission leads to. -/
theorem keysFetched_await (a : Agent) (c : Call) (submitted : Nat) (id : RequestId)
    (answer : UpdateAnswer) : (a.await c submitted id answer).run.Always caller KeysFetched := by
  match answer with
  | .certified certificate =>
    refine .run_bind .nil .append (keysFetched_certifiedStatus c none id certificate) fun reading => ?_
    match reading with
    | .missed | .lapsed => exact keysFetched_poll c id _ _
    | .status s =>
      simp only
      split
      · exact .done .nil _
      · exact .run_lift_bind .append (.of_quiet trivial) fun _ => keysFetched_poll c id _ _
  | .accepted => exact .run_lift_bind .append (.of_quiet trivial) fun _ => keysFetched_poll c id _ _
  | .unexpected status => exact .done .nil _

/-- So does a submission. -/
theorem keysFetched_submit (a : Agent) (c : Call) (arg : Bytes) :
    (a.submit c arg).run.Always caller KeysFetched := by
  refine .run_lift_bind .append (.of_quiet fun _ => trivial) fun submitted => ?_
  refine .run_lift_bind .append (.of_quiet ⟨trivial, fun a => by cases a <;> trivial⟩) fun answer => ?_
  match answer with
  | .error failure => exact .done .nil _
  | .ok submission => exact keysFetched_await a c submitted _ _

/-- **An update fetches the root key that it makes known.** -/
theorem keysFetched_update (a : Agent) (c : Call) (mapper : Mapper Value β) :
    (a.update c mapper).Always caller KeysFetched := by
  have outcome : (a.updateOutcome c mapper).run.Always caller KeysFetched := by
    refine .run_bind .nil .append (.done .nil _) fun arg => ?_
    refine .run_bind .nil .append (keysFetched_submit a c arg) fun reply => ?_
    refine .run_bind .nil .append (.of_quiet ?_) fun v => .done .nil _
    show (c.decode reply).Confined _ _
    rw [Call.decode]
    split <;> trivial
  refine .bind .append outcome fun outcome => .of_quiet ?_
  cases outcome <;> trivial

end CertifiedCalls
