import CertifiedCalls.Proofs.Call.Orderly
import CertifiedCalls.Proofs.Call.UpdateCourse
import CertifiedCalls.Proofs.Workflow.Prompt

/-! # Logs of readings
What one reading of a status leaves in the record, and when: the entries of a caller from the request
for the state to the certificate that is opened, or to what stopped the reading before. Opening takes
no time. A reading that starts by its limit ends by it (`ReadingLog.inTime`), and one that lapses ends
exactly there (`ReadingLog.of_lapsed`). -/

namespace CertifiedCalls

variable {k : Classifier} {caller t u : Nat} {acts : List (Act platform)} {limit : Option Nat}
  {id : RequestId} {log : List (Entry platform)}

/-- Entries in which each certificate is opened **at once**. -/
def OpenedAtOnce (log : List (Entry platform)) : Prop :=
  ∀ front asked answered back, log = front ++ asked :: answered :: back →
    answered.what.IsPrompt PlatformRequest.IsOpening → answered.time = asked.time

namespace OpenedAtOnce

variable {as bs : List (Entry platform)}

/-- What holds of entries holds of those in front. -/
theorem left (h : OpenedAtOnce (as ++ bs)) : OpenedAtOnce as := by
  rintro front asked answered back rfl
  exact h front asked answered (back ++ bs) (by simp)

/-- What holds of entries holds of those after. -/
theorem right (h : OpenedAtOnce (as ++ bs)) : OpenedAtOnce bs := by
  rintro front asked answered back rfl
  exact h (as ++ front) asked answered back (by simp)

end OpenedAtOnce

/-- Where certificates are opened at once in a world, they are among the acts of each caller. -/
theorem PromptSince.openedAtOnce {σ : Type} {w w' : World platform σ}
    (h : PromptSince PlatformRequest.IsOpening w w') (record : w'.record = w.record ++ kept acts)
    (caller : Nat) : OpenedAtOnce (kept (own caller acts)) := by
  obtain ⟨newer, past, prompt⟩ := h
  have all : kept acts = newer.reverse := by
    rw [World.record, World.record, past, List.reverse_append] at record
    exact (List.append_cancel_left record).symm
  rw [kept_own, all]
  intro front asked answered back split opening
  -- The two stand somewhere among all entries, with only entries of other callers between them.
  obtain ⟨as, bs, split, _, tail⟩ := List.filter_eq_append_iff.mp split
  obtain ⟨bs, cs, rfl, _, mine, tail⟩ := List.filter_eq_cons_iff.mp tail
  obtain ⟨between, ds, rfl, others, his, _⟩ := List.filter_eq_cons_iff.mp tail
  have latest : newer = ds.reverse ++ answered :: (between.reverse ++ asked :: (as ++ bs).reverse) := by
    rw [← List.reverse_reverse newer, split]
    simp
  rw [latest] at prompt
  cases what : answered.what with
  | answered n r answer =>
    rw [what] at opening
    obtain ⟨rest, before⟩ := prompt.of_append what opening
    -- Right before the answer stands its request, which is of the same caller.
    cases back : between.reverse with
    | nil =>
      rw [back] at before
      rw [(List.cons.inj before).1]
    | cons entry more =>
      rw [back] at before
      have mem : entry ∈ between := List.mem_reverse.mp (back ▸ List.mem_cons_self)
      refine absurd ?_ (others entry mem)
      rw [(List.cons.inj before).1]
      exact his
  | _ =>
    rw [what] at opening
    exact opening.elim

/-- Something that starts in time ends **in time**. -/
def InTime (limit : Option Nat) (t u : Nat) : Prop := ∀ l, limit = some l → t ≤ l → u ≤ l

/-- What takes its time but is done by the limit ends in time. -/
theorem InTime.of_isInTime {delay : Nat} (h : isInTime t delay limit = true) :
    InTime limit t (t + delay) := by
  rintro l rfl early
  rw [isInTime, Bool.or_eq_true, beq_iff_eq] at h
  rcases h with rfl | h
  · exact early
  · exact of_decide_eq_true h

/-- What is given up ends in time. -/
theorem InTime.of_lapse (limit : Option Nat) (t : Nat) : InTime limit t (lapseTime t limit) := by
  rintro l rfl early
  exact Nat.max_le.mpr ⟨early, Nat.le_refl l⟩

/-- One stretch in time after another. -/
theorem InTime.trans {v : Nat} (first : InTime limit t u) (second : InTime limit u v) :
    InTime limit t v :=
  fun l e early => second l e (first l e early)

/-- The requests that are about a call itself. -/
def PlatformRequest.ConcernsCall (r : PlatformRequest) : Prop := r.IsSubmission ∨ r.IsReading

/-- Entries among which nothing is asked about a call do not read. -/
theorem Unasked.unread (h : Unasked PlatformRequest.ConcernsCall log) :
    Unasked PlatformRequest.IsReading log := h.mono fun _ => .inr

/-- They do not submit either. -/
theorem Unasked.unsubmitted (h : Unasked PlatformRequest.ConcernsCall log) :
    Unasked PlatformRequest.IsSubmission log := h.mono fun _ => .inl

/-! ### The root key -/

/-- The entries of fetching the root key, up to how it ends. -/
def keyEntries (caller v number u : Nat) (what : Happening platform) : List (Entry platform) :=
  [⟨v, caller, .said Call.rootKeyEvent⟩, ⟨v, caller, .asked number .rootKey⟩, ⟨u, caller, what⟩]

/-- What a claim on the root key leaves in the record. -/
inductive KeyLog (k : Classifier) (caller : Nat) (limit : Option Nat) (t : Nat) :
    List (Entry platform) → Except CallFailure (Option Bytes) → Nat → Prop
  /-- The key is known. -/
  | known {u : Nat} (key : Bytes) (later : t ≤ u) (inTime : InTime limit t u) :
    KeyLog k caller limit t [] (.ok (some key)) u
  /-- The limit passes first. -/
  | lapsed (limited : limit.isSome) : KeyLog k caller limit t [] (.ok none) (lapseTime t limit)
  /-- The key is fetched. -/
  | fetched {v u : Nat} (number : Nat) (key : Bytes) (later : t ≤ u) (inTime : InTime limit t u) :
    KeyLog k caller limit t
      (keyEntries caller v number u (.answered (I := platform) number .rootKey (.ok key)))
      (.ok (some key)) u
  /-- The key cannot be fetched. -/
  | failed {v u : Nat} (number : Nat) (failure : TransportFailure) (later : t ≤ u)
    (inTime : InTime limit t u) :
    KeyLog k caller limit t
      (keyEntries caller v number u (.answered (I := platform) number .rootKey (.error failure)))
      (.error (k.classify failure)) u
  /-- The limit passes while it is fetched. -/
  | abandoned {v u : Nat} (number : Nat) (limited : limit.isSome) (later : t ≤ u)
    (late : ∀ l, limit = some l → t ≤ l → u = l) :
    KeyLog k caller limit t (keyEntries caller v number u (.abandoned number .rootKey)) (.ok none) u

namespace KeyLog

variable {out : Except CallFailure (Option Bytes)} {told : Option Bytes} {cause : CallFailure}

/-- A claim does not end before it is made. -/
theorem later (h : KeyLog k caller limit t log out u) : t ≤ u := by
  cases h with
  | known _ later _ | fetched _ _ later _ | failed _ _ later _ | abandoned _ _ later _ => exact later
  | lapsed _ => exact Nat.le_max_left _ _

/-- A claim ends in time. -/
theorem inTime (h : KeyLog k caller limit t log out u) : InTime limit t u := by
  cases h with
  | known _ _ inTime | fetched _ _ _ inTime | failed _ _ _ inTime => exact inTime
  | lapsed _ => exact .of_lapse limit t
  | abandoned _ _ _ late => exact fun l e early => Nat.le_of_eq (late l e early)

/-- A claim that lapses has a limit and ends there. -/
theorem of_lapsed (h : KeyLog k caller limit t log (.ok none) u) :
    limit.isSome ∧ ∀ l, limit = some l → t ≤ l → u = l := by
  cases h with
  | lapsed limited =>
    refine ⟨limited, ?_⟩
    rintro l rfl early
    exact Nat.max_eq_right early
  | abandoned _ limited _ late => exact ⟨limited, late⟩

/-- Nothing is asked about a call. -/
theorem silent (h : KeyLog k caller limit t log out u) :
    Unasked PlatformRequest.ConcernsCall log := by
  cases h with
  | known _ _ _ | lapsed _ => exact List.forall_mem_nil _
  | fetched _ _ _ _ | failed _ _ _ _ | abandoned _ _ _ _ =>
    intro entry mem n r e
    simp only [keyEntries, List.mem_cons, List.not_mem_nil, or_false] at mem
    rcases mem with rfl | rfl | rfl
    · exact nomatch e
    · obtain ⟨_, rfl⟩ := Happening.asked.inj e
      rintro (submits | reads)
      · exact submits
      · exact reads
    · exact nomatch e

/-- A claim that does not fail settles nothing and completes nothing. -/
theorem quiet (h : KeyLog k caller limit t log (.ok told) u) (id : RequestId) :
    Unsettled k id log ∧ Incomplete log := by
  cases h with
  | known _ _ _ | lapsed _ => exact ⟨List.forall_mem_nil _, List.forall_mem_nil _⟩
  | fetched _ _ _ _ | abandoned _ _ _ _ =>
    constructor
    all_goals
      intro entry mem
      simp only [keyEntries, List.mem_cons, List.not_mem_nil, or_false] at mem
      rcases mem with rfl | rfl | rfl <;> exact not_false

/-- A claim that fails completes what it is made for, when it ends. -/
theorem completedAt (h : KeyLog k caller limit t log (.error cause) u) : CompletedAt u log := by
  cases h with
  | failed number failure _ _ =>
    refine ⟨⟨_, List.mem_cons_of_mem _ (List.mem_cons_of_mem _ List.mem_cons_self), trivial⟩, ?_⟩
    intro entry mem completes
    simp only [keyEntries, List.mem_cons, List.not_mem_nil, or_false] at mem
    rcases mem with rfl | rfl | rfl
    · exact completes.elim
    · exact completes.elim
    · rfl

/-- The failure is the transport's. -/
theorem exists_classify (h : KeyLog k caller limit t log (.error cause) u) :
    ∃ failure : TransportFailure, cause = k.classify failure := by
  cases h with
  | failed number failure _ _ => exact ⟨failure, rfl⟩

end KeyLog

namespace Course

/-- A claim on the shared key ends in time, or exactly at its limit. -/
theorem time_of_claimKey {claim : Claim}
    (h : Course (I := platform) caller (Workflow.claimKey limit) t acts (.done claim) u) :
    kept acts = [] ∧ t ≤ u ∧ InTime limit t u ∧
      (claim = .lapsed → limit.isSome ∧ u = lapseTime t limit) := by
  cases h with
  | claim outcome wait inTime late rest =>
    obtain ⟨rfl, e, rfl⟩ := rest.of_done
    obtain rfl := Workflow.done.inj e
    refine ⟨rfl, Nat.le_add_right _ _, ?_, late⟩
    by_cases lapsed : claim = .lapsed
    · rw [(late lapsed).2]
      exact .of_lapse limit t
    · exact .of_isInTime (inTime lapsed)

/-- What fetching the root key leaves in the record. -/
theorem keyLog_of_fetchRootKey {out : Except CallFailure (Option Bytes)} {v : Nat} (later : t ≤ v)
    (inTime : InTime limit t v)
    (h : Course caller (Call.fetchRootKey k limit).run v acts (.done out) u) :
    KeyLog k caller limit t (kept acts) out u := by
  -- The event, the request, and what its answer leads to.
  obtain ⟨_, _, _, _, rfl, said, h₁⟩ := of_lift_bind_done h
  obtain ⟨rfl, rfl⟩ := of_say said
  obtain ⟨answer, _, _, _, rfl, asked, h₂⟩ := of_lift_bind_done h₁
  rcases of_askWithin asked with ⟨answer, number, delay, rfl, soon, rfl, rfl⟩ |
    ⟨number, delay, rfl, late, rfl, rfl⟩
  · have soon := inTime.trans (.of_isInTime soon)
    have later := Nat.le_trans later (Nat.le_add_right _ delay)
    match answer with
    | .ok key =>
      obtain ⟨_, _, _, _, rfl, published, h₃⟩ := of_lift_bind_done h₂
      cases published with
      | publish rest =>
        obtain ⟨rfl, _, rfl⟩ := rest.of_done
        obtain ⟨rfl, e, rfl⟩ := h₃.of_done
        obtain rfl := Workflow.done.inj e
        exact .fetched number key later soon
    | .error failure =>
      obtain ⟨_, _, _, _, rfl, released, h₃⟩ := of_lift_bind_done h₂
      cases released with
      | release rest =>
        obtain ⟨rfl, _, rfl⟩ := rest.of_done
        obtain ⟨rfl, e, rfl⟩ := h₃.of_done
        obtain rfl := Workflow.done.inj e
        exact .failed number failure later soon
  · obtain ⟨_, _, _, _, rfl, released, h₃⟩ := of_lift_bind_done h₂
    cases released with
    | release rest =>
      obtain ⟨rfl, _, rfl⟩ := rest.of_done
      obtain ⟨rfl, e, rfl⟩ := h₃.of_done
      obtain rfl := Workflow.done.inj e
      have limited : limit.isSome := by
        cases limit with
        | none => simp [isInTime] at late
        | some l => rfl
      refine .abandoned number limited (Nat.le_trans later (Nat.le_max_left _ _)) ?_
      rintro l rfl early
      exact Nat.max_eq_right (inTime l rfl early)

/-- What a claim on the root key leaves in the record. -/
theorem keyLog_of_rootKey {out : Except CallFailure (Option Bytes)}
    (h : Course caller (Call.rootKey k limit).run t acts (.done out) u) :
    KeyLog k caller limit t (kept acts) out u := by
  obtain ⟨outcome, _, _, _, rfl, claim, h₁⟩ := of_lift_bind_done h
  obtain ⟨quiet, later, inTime, lapsed⟩ := time_of_claimKey claim
  rw [kept_append, quiet, List.nil_append]
  match outcome with
  | .known key =>
    obtain ⟨rfl, e, rfl⟩ := h₁.of_done
    obtain rfl := Workflow.done.inj e
    exact .known key later inTime
  | .lapsed =>
    obtain ⟨rfl, e, rfl⟩ := h₁.of_done
    obtain rfl := Workflow.done.inj e
    obtain ⟨limited, rfl⟩ := lapsed rfl
    exact .lapsed limited
  | .granted => exact keyLog_of_fetchRootKey later inTime h₁

end Course

/-! ### Certificates -/

/-- The entries of opening a certificate, which takes no time. -/
def openEntries (caller u number : Nat) (certificate key : Bytes) (target : CanisterId)
    (answer : Except TransportFailure HashTree) : List (Entry platform) :=
  [⟨u, caller, .asked number (.openCertificate certificate key target)⟩,
    ⟨u, caller, .answered (I := platform) number (.openCertificate certificate key target) answer⟩]

/-- What looking for a status in a certificate leaves in the record. -/
inductive OpeningLog (k : Classifier) (c : Call) (caller : Nat) (limit : Option Nat) (id : RequestId)
    (certificate : Bytes) (t : Nat) :
    List (Entry platform) → Except CallFailure Reading → Nat → Prop
  /-- There is no key to open it with. -/
  | keyless {log : List (Entry platform)} {cause : CallFailure} {u : Nat}
    (key : KeyLog k caller limit t log (.error cause) u) :
    OpeningLog k c caller limit id certificate t log (.error cause) u
  /-- The limit passes before the key is known. -/
  | lapsed {log : List (Entry platform)} {u : Nat} (key : KeyLog k caller limit t log (.ok none) u) :
    OpeningLog k c caller limit id certificate t log (.ok .lapsed) u
  /-- It does not open. -/
  | refused {log : List (Entry platform)} {key : Bytes} {u : Nat} (number : Nat)
    (failure : TransportFailure) (told : KeyLog k caller limit t log (.ok (some key)) u) :
    OpeningLog k c caller limit id certificate t
      (log ++ openEntries caller u number certificate key c.target (.error failure))
      (.error (k.classify failure)) u
  /-- What it says of the request makes no sense. -/
  | faulty {log : List (Entry platform)} {key : Bytes} {u : Nat} {tree : HashTree}
    {fault : StatusFault} (number : Nat) (told : KeyLog k caller limit t log (.ok (some key)) u)
    (tells : tree.requestStatus id = .error fault) :
    OpeningLog k c caller limit id certificate t
      (log ++ openEntries caller u number certificate key c.target (.ok tree))
      (.error (.transientOf fault.message)) u
  /-- It says a status. -/
  | status {log : List (Entry platform)} {key : Bytes} {u : Nat} {tree : HashTree}
    {s : RequestStatus} (number : Nat) (told : KeyLog k caller limit t log (.ok (some key)) u)
    (tells : tree.requestStatus id = .ok s) :
    OpeningLog k c caller limit id certificate t
      (log ++ openEntries caller u number certificate key c.target (.ok tree)) (.ok (.status s)) u

/-- An opened certificate among entries **tells** a status of a request. -/
def Tells (log : List (Entry platform)) (id : RequestId) (s : RequestStatus) : Prop :=
  ∃ entry ∈ log, ∃ number certificate key target tree,
    entry.what = .answered (I := platform) number (.openCertificate certificate key target) (.ok tree) ∧
      tree.requestStatus id = .ok s

/-- What is told among entries is told among more of them. -/
theorem Tells.mono {more : List (Entry platform)} {s : RequestStatus} (h : Tells log id s)
    (within : ∀ entry ∈ log, entry ∈ more) : Tells more id s := by
  obtain ⟨entry, mem, tells⟩ := h
  exact ⟨entry, within entry mem, tells⟩

section Openings

variable {number : Nat} {certificate key : Bytes} {target : CanisterId}
  {answer : Except TransportFailure HashTree}

/-- Opening asks nothing about a call. -/
theorem silent_openEntries : Unasked PlatformRequest.ConcernsCall
    (openEntries caller u number certificate key target answer) := by
  intro entry mem n r e
  simp only [openEntries, List.mem_cons, List.not_mem_nil, or_false] at mem
  rcases mem with rfl | rfl
  · obtain ⟨_, rfl⟩ := Happening.asked.inj e
    rintro (submits | reads)
    · exact submits
    · exact reads
  · exact nomatch e

/-- Opening completes what it is done for. -/
theorem completedAt_openEntries :
    CompletedAt u (openEntries caller u number certificate key target answer) := by
  refine ⟨⟨_, List.mem_cons_of_mem _ List.mem_cons_self, trivial⟩, fun entry mem _ => ?_⟩
  simp only [openEntries, List.mem_cons, List.not_mem_nil, or_false] at mem
  rcases mem with rfl | rfl <;> rfl

/-- Opening settles nothing where the status is not final. -/
theorem unsettled_openEntries {tree : HashTree} {s : RequestStatus}
    (tells : tree.requestStatus id = .ok s) (pending : ¬ s.isTerminal = true) :
    Unsettled k id (openEntries caller u number certificate key target (.ok tree)) := by
  intro entry mem
  simp only [openEntries, List.mem_cons, List.not_mem_nil, or_false] at mem
  rcases mem with rfl | rfl
  · exact not_false
  · exact fun settles => pending (settles s tells)

end Openings

namespace OpeningLog

variable {c : Call} {certificate : Bytes} {out : Except CallFailure Reading} {s : RequestStatus}
  {cause : CallFailure}

/-- It does not end before it starts. -/
theorem later (h : OpeningLog k c caller limit id certificate t log out u) : t ≤ u := by
  cases h with
  | keyless key | lapsed key => exact key.later
  | refused _ _ told | faulty _ told _ | status _ told _ => exact told.later

/-- It ends in time. -/
theorem inTime (h : OpeningLog k c caller limit id certificate t log out u) : InTime limit t u := by
  cases h with
  | keyless key | lapsed key => exact key.inTime
  | refused _ _ told | faulty _ told _ | status _ told _ => exact told.inTime

/-- It asks nothing about a call. -/
theorem silent (h : OpeningLog k c caller limit id certificate t log out u) :
    Unasked PlatformRequest.ConcernsCall log := by
  cases h with
  | keyless key | lapsed key => exact key.silent
  | refused _ _ told | faulty _ told _ | status _ told _ => exact told.silent.append silent_openEntries

/-- Where it lapses, it has a limit, ends there and completes nothing. -/
theorem of_lapsed (h : OpeningLog k c caller limit id certificate t log (.ok .lapsed) u) :
    limit.isSome ∧ (∀ l, limit = some l → t ≤ l → u = l) ∧ Incomplete log := by
  cases h with
  | lapsed key => exact ⟨key.of_lapsed.1, key.of_lapsed.2, (key.quiet id).2⟩

/-- Where it does not lapse, it completes what it is done for when it ends. -/
theorem completedAt (h : OpeningLog k c caller limit id certificate t log out u)
    (ends : out ≠ .ok .lapsed) : CompletedAt u log := by
  cases h with
  | keyless key => exact key.completedAt
  | lapsed key => exact absurd rfl ends
  | refused _ _ told | faulty _ told _ | status _ told _ =>
    exact .of_incomplete_append (told.quiet id).2 completedAt_openEntries

/-- A status that is not final settles nothing. -/
theorem unsettled (h : OpeningLog k c caller limit id certificate t log (.ok (.status s)) u)
    (pending : ¬ s.isTerminal = true) : Unsettled k id log := by
  cases h with
  | status _ told tells =>
    exact List.forall_mem_append.mpr ⟨(told.quiet id).1, unsettled_openEntries tells pending⟩

/-- A status is what an opened certificate tells. -/
theorem tells (h : OpeningLog k c caller limit id certificate t log (.ok (.status s)) u) :
    Tells log id s := by
  cases h with
  | status number _ tells =>
    exact ⟨_, List.mem_append_right _ (List.mem_cons_of_mem _ List.mem_cons_self), number, _, _, _, _,
      rfl, tells⟩

/-- It is never missed. -/
theorem not_missed : ¬ OpeningLog k c caller limit id certificate t log (.ok .missed) u := nofun

/-- It does not fail for want of time. -/
theorem not_isTimeout (h : OpeningLog k c caller limit id certificate t log (.error cause) u) :
    ¬ cause.IsTimeout := by
  cases h with
  | keyless key =>
    obtain ⟨failure, rfl⟩ := key.exists_classify
    exact k.not_isTimeout failure
  | refused _ failure _ => exact k.not_isTimeout failure
  | faulty _ _ _ => exact not_false

end OpeningLog

/-- What looking for a status in a certificate leaves in the record, when certificates are opened at
once. -/
theorem Course.openingLog_of_certifiedStatus {c : Call} {certificate : Bytes}
    {out : Except CallFailure Reading}
    (h : Course caller (c.certifiedStatus k limit id certificate).run t acts (.done out) u)
    (prompt : OpenedAtOnce (kept acts)) :
    OpeningLog k c caller limit id certificate t (kept acts) out u := by
  rcases of_except_bind_done h with ⟨cause, rfl, failed⟩ | ⟨told, as, bs, v, rfl, asked, h₁⟩
  · exact .keyless (keyLog_of_rootKey failed)
  · have key := keyLog_of_rootKey asked
    rw [kept_append] at prompt ⊢
    match told with
    | none =>
      obtain ⟨rfl, e, rfl⟩ := h₁.of_done
      obtain rfl := Workflow.done.inj e
      rw [kept_nil, List.append_nil]
      exact .lapsed key
    | some known =>
      obtain ⟨opened, _, _, _, rfl, opening, h₂⟩ := of_lift_bind_done h₁
      obtain ⟨number, delay, rfl, rfl⟩ := of_ask opening
      -- The answer stands right after its request, so it comes at the same time.
      have atOnce : v + delay = v := prompt.right [] _ _ _ rfl trivial
      match opened with
      | .error failure =>
        obtain ⟨rfl, e, rfl⟩ := h₂.of_done
        obtain rfl := Workflow.done.inj e
        rw [atOnce]
        exact .refused number failure key
      | .ok tree =>
        simp only at h₂
        cases tells : tree.requestStatus id with
        | error fault =>
          rw [tells] at h₂
          obtain ⟨rfl, e, rfl⟩ := h₂.of_done
          obtain rfl := Workflow.done.inj e
          rw [atOnce]
          exact .faulty number key tells
        | ok s =>
          rw [tells] at h₂
          obtain ⟨rfl, e, rfl⟩ := h₂.of_done
          obtain rfl := Workflow.done.inj e
          rw [atOnce]
          exact .status number key tells

/-! ### Readings -/

/-- What one reading leaves in the record. -/
inductive ReadingLog (k : Classifier) (c : Call) (caller limit : Nat) (id : RequestId) (t : Nat) :
    List (Entry platform) → Except CallFailure Reading → Nat → Prop
  /-- The limit passes before it is answered. -/
  | abandoned (number : Nat) :
    ReadingLog k c caller limit id t [⟨t, caller, .asked number (.readState c.target id)⟩,
      ⟨max t limit, caller, .abandoned number (.readState c.target id)⟩] (.ok .lapsed) (max t limit)
  /-- It fails in a way that may be tried again. -/
  | missed {u : Nat} {failure : TransportFailure} (number : Nat) (later : t ≤ u)
    (inTime : InTime (some limit) t u) (retryable : (k.classify failure).isRetryable = true) :
    ReadingLog k c caller limit id t [⟨t, caller, .asked number (.readState c.target id)⟩,
      ⟨u, caller, .answered (I := platform) number (.readState c.target id) (.error failure)⟩,
      ⟨u, caller, .said (Call.missedEvent id (k.classify failure))⟩] (.ok .missed) u
  /-- It fails for good. -/
  | refused {u : Nat} {failure : TransportFailure} (number : Nat) (later : t ≤ u)
    (inTime : InTime (some limit) t u) :
    ReadingLog k c caller limit id t [⟨t, caller, .asked number (.readState c.target id)⟩,
      ⟨u, caller, .answered (I := platform) number (.readState c.target id) (.error failure)⟩]
      (.error (k.classify failure)) u
  /-- A certificate is delivered, and looked into. -/
  | delivered {v u : Nat} {certificate : Bytes} {log : List (Entry platform)}
    {out : Except CallFailure Reading} (number : Nat) (later : t ≤ v)
    (inTime : InTime (some limit) t v)
    (opening : OpeningLog k c caller (some limit) id certificate v log out u) :
    ReadingLog k c caller limit id t (⟨t, caller, .asked number (.readState c.target id)⟩
      :: ⟨v, caller, .answered (I := platform) number (.readState c.target id) (.ok certificate)⟩
      :: log) out u

namespace ReadingLog

variable {c : Call} {limit : Nat} {out : Except CallFailure Reading} {s : RequestStatus}
  {cause : CallFailure}

/-- A reading does not end before it starts. -/
theorem later (h : ReadingLog k c caller limit id t log out u) : t ≤ u := by
  cases h with
  | abandoned _ => exact Nat.le_max_left _ _
  | missed _ later _ _ | refused _ later _ => exact later
  | delivered _ later _ opening => exact Nat.le_trans later opening.later

/-- A reading that starts by its limit ends by it. -/
theorem inTime (h : ReadingLog k c caller limit id t log out u) (early : t ≤ limit) : u ≤ limit := by
  cases h with
  | abandoned _ => exact Nat.max_le.mpr ⟨early, Nat.le_refl _⟩
  | missed _ _ inTime _ | refused _ _ inTime => exact inTime limit rfl early
  | delivered _ _ inTime opening => exact (inTime.trans opening.inTime) limit rfl early

/-- A reading is one request for the state, and nothing else is asked about the call. -/
theorem exists_cons (h : ReadingLog k c caller limit id t log out u) :
    ∃ number rest, log = ⟨t, caller, .asked number (.readState c.target id)⟩ :: rest ∧
      Unasked PlatformRequest.ConcernsCall rest := by
  cases h with
  | abandoned number => exact ⟨number, _, rfl, .cons nofun (List.forall_mem_nil _)⟩
  | missed number _ _ _ => exact ⟨number, _, rfl, .cons nofun (.cons nofun (List.forall_mem_nil _))⟩
  | refused number _ _ => exact ⟨number, _, rfl, .cons nofun (List.forall_mem_nil _)⟩
  | delivered number _ _ opening => exact ⟨number, _, rfl, .cons nofun opening.silent⟩

/-- A reading that lapses ends at its limit and is not completed. -/
theorem of_lapsed (h : ReadingLog k c caller limit id t log (.ok .lapsed) u) (early : t ≤ limit) :
    u = limit ∧ Incomplete log := by
  cases h with
  | abandoned _ =>
    exact ⟨Nat.max_eq_right early, by simp [Incomplete, Happening.Completes]⟩
  | delivered _ _ inTime opening =>
    obtain ⟨_, late, incomplete⟩ := opening.of_lapsed
    exact ⟨late limit rfl (inTime limit rfl early),
      List.forall_mem_cons.mpr ⟨not_false, List.forall_mem_cons.mpr ⟨not_false, incomplete⟩⟩⟩

/-- A reading that does not lapse is completed when it ends. -/
theorem completedAt (h : ReadingLog k c caller limit id t log out u) (ends : out ≠ .ok .lapsed) :
    CompletedAt u log := by
  cases h with
  | abandoned _ => exact absurd rfl ends
  | missed _ _ _ _ | refused _ _ _ => simp [CompletedAt, Happening.Completes]
  | delivered _ _ _ opening =>
    refine (completedAt_cons ?_).mpr ((completedAt_cons ?_).mpr (opening.completedAt ends))
    · exact not_false
    · exact not_false

/-- A reading that is completed without settling the request leaves nothing open. -/
theorem clear_of_unsettled (h : ReadingLog k c caller limit id t log out u) (ends : out ≠ .ok .lapsed)
    (unsettled : Unsettled k id log) : Clear k id log := by
  refine ⟨unsettled, fun front t' caller' n r back split reads => ?_⟩
  obtain ⟨number, rest, rfl, silent⟩ := h.exists_cons
  obtain ⟨entry, mem, completes⟩ := (h.completedAt ends).1
  cases front with
  | nil =>
    obtain ⟨same, rfl⟩ := List.cons.inj split
    obtain ⟨rfl, rfl, e⟩ := Entry.mk.inj same
    obtain ⟨rfl, rfl⟩ := Happening.asked.inj e
    -- The answer comes next, and something after the request completes the reading.
    have after : entry ∈ rest := by
      rcases List.mem_cons.mp mem with rfl | after
      · exact completes.elim
      · exact after
    cases h with
    | abandoned _ => exact absurd rfl ends
    | missed _ _ _ _ | refused _ _ _ | delivered _ _ _ _ =>
      exact ⟨_, _, _, rfl, entry, after, completes⟩
  | cons _ front =>
    obtain ⟨_, rest⟩ := List.cons.inj split
    exact absurd reads (silent.unread.not_split rest)

/-- A reading that is missed leaves nothing open. -/
theorem clear_of_missed (h : ReadingLog k c caller limit id t log (.ok .missed) u) :
    Clear k id log := by
  refine h.clear_of_unsettled (by simp) ?_
  cases h with
  | missed _ _ _ retryable => simp [Unsettled, Happening.Settles, retryable]
  | delivered _ _ _ opening => exact absurd opening OpeningLog.not_missed

/-- A reading of a status that is not final leaves nothing open. -/
theorem clear_of_status (h : ReadingLog k c caller limit id t log (.ok (.status s)) u)
    (pending : ¬ s.isTerminal = true) : Clear k id log := by
  refine h.clear_of_unsettled (by simp) ?_
  cases h with
  | delivered _ _ _ opening =>
    exact List.forall_mem_cons.mpr ⟨not_false, List.forall_mem_cons.mpr ⟨not_false,
      opening.unsettled pending⟩⟩

/-- A status that is read is what an opened certificate tells. -/
theorem tells (h : ReadingLog k c caller limit id t log (.ok (.status s)) u) : Tells log id s := by
  cases h with
  | delivered _ _ _ opening =>
    exact opening.tells.mono fun _ mem => List.mem_cons_of_mem _ (List.mem_cons_of_mem _ mem)

/-- A reading does not fail for want of time. -/
theorem not_isTimeout (h : ReadingLog k c caller limit id t log (.error cause) u) :
    ¬ cause.IsTimeout := by
  cases h with
  | @refused _ failure _ _ _ => exact k.not_isTimeout failure
  | delivered _ _ _ opening => exact opening.not_isTimeout

end ReadingLog

/-- What one reading leaves in the record, when certificates are opened at once. -/
theorem Course.readingLog_of_readStatus {c : Call} {limit : Nat} {out : Except CallFailure Reading}
    (h : Course caller (c.readStatus k limit id).run t acts (.done out) u)
    (prompt : OpenedAtOnce (kept acts)) : ReadingLog k c caller limit id t (kept acts) out u := by
  obtain ⟨answer, as, bs, _, rfl, asked, h₁⟩ := of_lift_bind_done h
  rw [kept_append] at prompt ⊢
  rcases of_askWithin asked with ⟨answer, number, delay, rfl, soon, rfl, rfl⟩ |
    ⟨number, delay, rfl, late, rfl, rfl⟩
  · have soon := InTime.of_isInTime soon
    have later := Nat.le_add_right t delay
    match answer with
    | .ok certificate =>
      exact .delivered number later soon (openingLog_of_certifiedStatus h₁ prompt.right)
    | .error failure =>
      simp only at h₁
      split at h₁
      · rename_i retryable
        obtain ⟨_, _, _, _, rfl, said, h₂⟩ := of_lift_bind_done h₁
        obtain ⟨rfl, rfl⟩ := of_say said
        obtain ⟨rfl, e, rfl⟩ := h₂.of_done
        obtain rfl := Workflow.done.inj e
        exact .missed number later soon retryable
      · obtain ⟨rfl, e, rfl⟩ := h₁.of_done
        obtain rfl := Workflow.done.inj e
        exact .refused number later soon
  · obtain ⟨rfl, e, rfl⟩ := h₁.of_done
    obtain rfl := Workflow.done.inj e
    exact .abandoned number

end CertifiedCalls
