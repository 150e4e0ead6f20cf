import CertifiedCalls.Call.Update
import CertifiedCalls.Proofs.Workflow.Course

/-! # Orderly readings
A caller reads the state of a request **in order** when each reading starts by the deadline, after the
earlier ones are over and before anything has settled the request. Orderly entries may be followed by
others where the first leave nothing open (`Orderly.append`). -/

namespace CertifiedCalls

namespace PlatformRequest

/-- The requests that **submit** an update. -/
def IsSubmission : PlatformRequest → Prop
  | .update _ _ _ => True
  | _ => False

/-- The requests that **read** the state of a request. -/
def IsReading : PlatformRequest → Prop
  | .readState _ _ => True
  | _ => False

/-- The requests that **open** a certificate. -/
def IsOpening : PlatformRequest → Prop
  | .openCertificate _ _ _ => True
  | _ => False

end PlatformRequest

namespace Happening

/-- What **settles** a request, so that it is not read again: a reading has failed for good, no key or
no certificate could be had, or a certificate was opened that does not say that the request is still
under way. -/
def Settles (k : Classifier) (id : RequestId) : Happening platform → Prop
  | .answered _ (.readState _ _) (.error failure) => (k.classify failure).isRetryable = false
  | .answered _ .rootKey (.error _) => True
  | .answered _ (.openCertificate _ _ _) (.error _) => True
  | .answered _ (.openCertificate _ _ _) (.ok tree) =>
    ∀ s, tree.requestStatus id = .ok s → s.isTerminal = true
  | _ => False

/-- What **completes** a reading: it has failed, no key could be had, or its certificate was opened or
refused. -/
def Completes : Happening platform → Prop
  | .answered _ (.readState _ _) (.error _) => True
  | .answered _ .rootKey (.error _) => True
  | .answered _ (.openCertificate _ _ _) _ => True
  | _ => False

end Happening

/-- Entries among which no request of a kind is made. -/
def Unasked (kind : PlatformRequest → Prop) (log : List (Entry platform)) : Prop :=
  ∀ entry ∈ log, ∀ n r, entry.what = .asked n r → ¬ kind r

/-- Entries among which nothing settles a request. -/
def Unsettled (k : Classifier) (id : RequestId) (log : List (Entry platform)) : Prop :=
  ∀ entry ∈ log, ¬ entry.what.Settles k id

/-- Entries among which no reading is completed. -/
def Incomplete (log : List (Entry platform)) : Prop := ∀ entry ∈ log, ¬ entry.what.Completes

/-- Entries among which a reading is completed at a time, and none at another. -/
def CompletedAt (time : Nat) (log : List (Entry platform)) : Prop :=
  (∃ entry ∈ log, entry.what.Completes) ∧ ∀ entry ∈ log, entry.what.Completes → entry.time = time

/-- Entries that leave nothing **open**: nothing settles the request, and each reading was answered
next and then completed. -/
structure Clear (k : Classifier) (id : RequestId) (log : List (Entry platform)) : Prop where
  /-- Nothing settles the request. -/
  unsettled : Unsettled k id log
  /-- Each reading was answered and completed. -/
  completed : ∀ front t caller n r back, log = front ++ ⟨t, caller, .asked n r⟩ :: back →
    r.IsReading → ∃ u answer rest, back = ⟨u, caller, .answered (I := platform) n r answer⟩ :: rest ∧
      ∃ entry ∈ back, entry.what.Completes

/-- Entries in which the state of a request is read **in order**, by a deadline. -/
def Orderly (k : Classifier) (target : CanisterId) (id : RequestId) (deadline : Nat)
    (log : List (Entry platform)) : Prop :=
  ∀ front t caller n r back, log = front ++ ⟨t, caller, .asked n r⟩ :: back → r.IsReading →
    r = .readState target id ∧ t ≤ deadline ∧ Clear k id front

/-- The **last reading** among entries was not over before a deadline: it was completed exactly there,
or given up there. -/
def LastReadUntil (caller : Nat) (target : CanisterId) (id : RequestId) (deadline : Nat)
    (log : List (Entry platform)) : Prop :=
  ∃ front t n back, log = front ++ ⟨t, caller, .asked n (.readState target id)⟩ :: back ∧
    Unasked PlatformRequest.IsReading back ∧
    (CompletedAt deadline back ∨
      Incomplete back ∧ ⟨deadline, caller, .said (Call.lapsedEvent id)⟩ ∈ back)

/-- An update was **submitted** at a time, and taken under a request. -/
def Submitted (c : Call) (caller : Nat) (arg : Bytes) (since : Nat) (id : RequestId)
    (log : List (Entry platform)) : Prop :=
  ∃ n v answer, ⟨since, caller, .asked n (.update c.target (wireMethodName c.method) arg)⟩ ∈ log ∧
    ⟨v, caller, .answered (I := platform) n (.update c.target (wireMethodName c.method) arg)
      (.ok ⟨id, answer⟩)⟩ ∈ log

/-- Polling for a request was **entered** at a time. -/
def PollingEntered (c : Call) (caller : Nat) (id : RequestId) (t : Nat)
    (log : List (Entry platform)) : Prop :=
  ⟨t, caller, .said (c.acceptedEvent id)⟩ ∈ log ∨ ⟨t, caller, .said (c.pendingEvent id)⟩ ∈ log

/-- What was submitted among entries was submitted among more of them. -/
theorem Submitted.mono {c : Call} {caller since : Nat} {arg : Bytes} {id : RequestId}
    {log more : List (Entry platform)} (h : Submitted c caller arg since id log)
    (within : ∀ entry ∈ log, entry ∈ more) : Submitted c caller arg since id more := by
  obtain ⟨n, v, answer, asked, answered⟩ := h
  exact ⟨n, v, answer, within _ asked, within _ answered⟩

/-- Polling that was entered among entries was entered among more of them. -/
theorem PollingEntered.mono {c : Call} {caller t : Nat} {id : RequestId}
    {log more : List (Entry platform)} (h : PollingEntered c caller id t log)
    (within : ∀ entry ∈ log, entry ∈ more) : PollingEntered c caller id t more :=
  h.imp (within _) (within _)

/-- An entry of two lists together stands in the first or in the second. -/
theorem split_of_append {α : Type} {as bs front back : List α} {x : α}
    (h : as ++ bs = front ++ x :: back) :
    (∃ more, as = front ++ x :: more ∧ back = more ++ bs) ∨
      ∃ more, front = as ++ more ∧ bs = more ++ x :: back := by
  rcases List.append_eq_append_iff.mp h with ⟨more, rfl, rest⟩ | ⟨more, rfl, rest⟩
  · exact .inr ⟨more, rfl, rest⟩
  · cases more with
    | nil => exact .inr ⟨[], by simp, rest.symm⟩
    | cons y more =>
      obtain ⟨rfl, rfl⟩ := List.cons.inj rest
      exact .inl ⟨more, rfl, rfl⟩

variable {kind : PlatformRequest → Prop} {k : Classifier} {target : CanisterId} {id : RequestId}
  {deadline time : Nat} {as bs log : List (Entry platform)}

/-- An entry that is no request of a kind, in front of entries without any. -/
theorem Unasked.cons {entry : Entry platform} (other : ∀ n r, entry.what = .asked n r → ¬ kind r)
    (rest : Unasked kind log) : Unasked kind (entry :: log) := List.forall_mem_cons.mpr ⟨other, rest⟩

/-- No request of a kind is made in front or after. -/
theorem Unasked.append (front : Unasked kind as) (after : Unasked kind bs) : Unasked kind (as ++ bs) :=
  List.forall_mem_append.mpr ⟨front, after⟩

/-- Where no request of a wider kind is made, none of the kind is. -/
theorem Unasked.mono {wider : PlatformRequest → Prop} (h : Unasked wider log)
    (within : ∀ r, kind r → wider r) : Unasked kind log :=
  fun entry mem n r e here => h entry mem n r e (within r here)

/-- Entries without a request of a kind do not go on with one. -/
theorem Unasked.not_split (h : Unasked kind log) {front back : List (Entry platform)}
    {t caller n : Nat} {r : PlatformRequest} (split : log = front ++ ⟨t, caller, .asked n r⟩ :: back) :
    ¬ kind r := by
  subst split
  exact h _ (List.mem_append_right _ List.mem_cons_self) n r rfl

/-- A reading that is completed in front of others, none of which is, is completed at the same
time. -/
theorem CompletedAt.append (front : CompletedAt time as) (after : Incomplete bs) :
    CompletedAt time (as ++ bs) := by
  obtain ⟨⟨entry, mem, completes⟩, all⟩ := front
  exact ⟨⟨entry, List.mem_append_left _ mem, completes⟩,
    List.forall_mem_append.mpr ⟨all, fun entry mem here => absurd here (after entry mem)⟩⟩

/-- A reading that is completed after entries among which none is. -/
theorem CompletedAt.of_incomplete_append (front : Incomplete as) (after : CompletedAt time bs) :
    CompletedAt time (as ++ bs) := by
  obtain ⟨⟨entry, mem, completes⟩, all⟩ := after
  exact ⟨⟨entry, List.mem_append_right _ mem, completes⟩,
    List.forall_mem_append.mpr ⟨fun entry mem here => absurd here (front entry mem), all⟩⟩

/-- An entry that completes no reading makes no difference to when one is completed. -/
theorem completedAt_cons {entry : Entry platform} (other : ¬ entry.what.Completes) :
    CompletedAt time (entry :: log) ↔ CompletedAt time log := by
  constructor
  · rintro ⟨⟨found, mem, completes⟩, all⟩
    refine ⟨⟨found, ?_, completes⟩, fun e mem => all e (List.mem_cons_of_mem _ mem)⟩
    rcases List.mem_cons.mp mem with rfl | mem
    · exact absurd completes other
    · exact mem
  · exact .of_incomplete_append (List.forall_mem_singleton.mpr other)

/-- The last reading of entries is the last with others in front. -/
theorem LastReadUntil.append_left {caller : Nat} (h : LastReadUntil caller target id deadline bs)
    (as : List (Entry platform)) : LastReadUntil caller target id deadline (as ++ bs) := by
  obtain ⟨front, t, n, back, rfl, unread, ends⟩ := h
  exact ⟨as ++ front, t, n, back, (List.append_assoc _ _ _).symm, unread, ends⟩

/-- It is the last with entries after it that neither read nor complete a reading. -/
theorem LastReadUntil.append_right {caller : Nat} (h : LastReadUntil caller target id deadline as)
    (unread : Unasked PlatformRequest.IsReading bs) (incomplete : Incomplete bs) :
    LastReadUntil caller target id deadline (as ++ bs) := by
  obtain ⟨front, t, n, back, rfl, none, ends⟩ := h
  refine ⟨front, t, n, back ++ bs, by simp, none.append unread, ?_⟩
  rcases ends with completed | ⟨open_, lapsed⟩
  · exact .inl (completed.append incomplete)
  · exact .inr ⟨List.forall_mem_append.mpr ⟨open_, incomplete⟩, List.mem_append_left _ lapsed⟩

namespace Clear

/-- Entries without readings leave nothing open where nothing settles the request. -/
theorem of_unasked (unsettled : Unsettled k id log) (unread : Unasked PlatformRequest.IsReading log) :
    Clear k id log :=
  ⟨unsettled, fun _ _ _ _ _ _ split reads => absurd reads (unread.not_split split)⟩

/-- What leaves nothing open leaves nothing open together. -/
theorem append (front : Clear k id as) (after : Clear k id bs) : Clear k id (as ++ bs) where
  unsettled := List.forall_mem_append.mpr ⟨front.unsettled, after.unsettled⟩
  completed before t caller n r back split reads := by
    rcases split_of_append split with ⟨more, first, rfl⟩ | ⟨more, rfl, second⟩
    · obtain ⟨u, answer, rest, rfl, entry, mem, completes⟩ :=
        front.completed before t caller n r more first reads
      exact ⟨u, answer, rest ++ bs, rfl, entry, List.mem_append_left _ mem, completes⟩
    · exact after.completed more t caller n r back second reads

end Clear

namespace Orderly

/-- Entries without readings are in order. -/
theorem of_unasked (unread : Unasked PlatformRequest.IsReading log) :
    Orderly k target id deadline log :=
  fun _ _ _ _ _ _ split reads => absurd reads (unread.not_split split)

/-- Orderly entries that leave nothing open may be followed by others. -/
theorem append (front : Orderly k target id deadline as) (clear : Clear k id as)
    (after : Orderly k target id deadline bs) : Orderly k target id deadline (as ++ bs) := by
  intro before t caller n r back split reads
  rcases split_of_append split with ⟨more, first, rfl⟩ | ⟨more, rfl, second⟩
  · exact front before t caller n r more first reads
  · obtain ⟨same, soon, between⟩ := after more t caller n r back second reads
    exact ⟨same, soon, clear.append between⟩

/-- Orderly entries may be followed by entries without readings. -/
theorem append_unasked (front : Orderly k target id deadline as)
    (unread : Unasked PlatformRequest.IsReading bs) : Orderly k target id deadline (as ++ bs) := by
  intro before t caller n r back split reads
  rcases split_of_append split with ⟨more, first, rfl⟩ | ⟨more, rfl, second⟩
  · exact front before t caller n r more first reads
  · exact absurd reads (unread.not_split second)

/-- One reading that starts by the deadline is in order. -/
theorem of_reading {t caller n : Nat} (soon : t ≤ deadline)
    (unread : Unasked PlatformRequest.IsReading log) :
    Orderly k target id deadline (⟨t, caller, .asked n (.readState target id)⟩ :: log) := by
  intro front t' caller' n' r back split reads
  cases front with
  | nil =>
    obtain ⟨same, _⟩ := List.cons.inj split
    obtain ⟨rfl, _, e⟩ := Entry.mk.inj same
    obtain ⟨_, rfl⟩ := Happening.asked.inj e
    exact ⟨rfl, soon, fun _ mem => absurd mem List.not_mem_nil, by simp⟩
  | cons _ front =>
    obtain ⟨_, rest⟩ := List.cons.inj split
    exact absurd reads (unread.not_split rest)

end Orderly

end CertifiedCalls
