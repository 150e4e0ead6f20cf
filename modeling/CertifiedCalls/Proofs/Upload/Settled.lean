import CertifiedCalls.Proofs.Upload.Chunks

/-! # Settled uploads
When the answer to a chunk depends on its index and on the number of the attempt only, what an upload
comes to does not depend on how many chunks are under way at a time, nor on how long the answers take:
it succeeds exactly when each chunk is stored in one of its attempts, and otherwise fails for a chunk
that is stored in none (`Upload.run_settled`). -/

namespace CertifiedCalls

variable {σ : Type}

namespace Upload

/-- A storage **answers by attempt** when its answer to a chunk is that of the index and of the number
of the attempt. Its state tells how often the chunk of each index has been sent. -/
structure AnswersByAttempt (env : Environment storage σ) (sent : σ → UInt32 → Nat)
    (answers : UInt32 → Nat → Except FailedCall ChunkReply) : Prop where
  /-- A chunk gets the answer of the attempt. -/
  answer_eq : ∀ state now bucket args, (env state now (.store bucket args)).answer
    = answers args.index (sent state args.index + 1)
  /-- It has been sent once more. -/
  sent_store : ∀ state now bucket args, sent (env state now (.store bucket args)).state
    = Function.update (sent state) args.index (sent state args.index + 1)
  /-- Asking for a place sends no chunk. -/
  sent_allocate : ∀ state now args, sent (env state now (.allocate args)).state = sent state

/-- This is a promise. -/
def AnswersByAttempt.promise {env : Environment storage σ} {sent : σ → UInt32 → Nat}
    {answers : UInt32 → Nat → Except FailedCall ChunkReply} (h : AnswersByAttempt env sent answers) :
    Promise env where
  keeps state counted := sent state = counted
  gives index attempt answer := answer = answers index attempt
  kept state _ now bucket args := by
    rintro rfl
    exact ⟨h.sent_store state now bucket args, h.answer_eq state now bucket args⟩

/-- One of so many attempts stores the chunk of an index. -/
def StoredWithin (answers : UInt32 → Nat → Except FailedCall ChunkReply) (attempts i : Nat) : Prop :=
  ∃ attempt, 0 < attempt ∧ attempt ≤ attempts ∧ storedBy (answers (.ofNat i) attempt) = true

/-- What an upload of so many chunks has come to is **settled** by the answers to its attempts. -/
structure Settled (answers : UInt32 → Nat → Except FailedCall ChunkReply)
    (attempts limit count : Nat) (file : UploadedFile)
    (outcome : Option (Except UploadFailure UploadedFile)) : Prop where
  /-- It succeeds exactly when each chunk is stored in one of its attempts. -/
  ok_iff : outcome = some (.ok file) ↔ ∀ i < count, StoredWithin answers attempts i
  /-- Otherwise it fails for a chunk that is stored in none, with the last answer; when one chunk is
  under way at a time, for the first such chunk. -/
  failed : (¬ ∀ i < count, StoredWithin answers attempts i) →
    ∃ i < count, ¬ StoredWithin answers attempts i ∧
      outcome = some (.error
        (.chunkFailed (.ofNat i) attempts (faultOf (answers (.ofNat i) attempts)))) ∧
      (limit = 1 → ∀ j < i, StoredWithin answers attempts j)

section Pools

variable {env : Environment storage σ} {sent : σ → UInt32 → Nat}
  {answers : UInt32 → Nat → Except FailedCall ChunkReply}
  {by_attempt : AnswersByAttempt env sent answers}
  {b : Batch} {w : World storage σ} {limit begun : Nat} {out : List Nat}
  {pool : Pool storage σ (Except UploadFailure Unit)} {log : List (Entry storage)}

/-- A chunk that has ended was stored in one of its attempts. -/
theorem storedWithin_of_ended
    (h : (b.ledger by_attempt.promise).Kept isFinal w b.count limit out pool log begun) {i : Nat}
    (mem : i ∈ pool.ended.map Ended.id) : StoredWithin answers b.attempts i := by
  obtain ⟨e, here, rfl⟩ := List.mem_map.mp mem
  obtain ⟨_, _, made, le, tried⟩ := h.ended e here
  obtain ⟨pos, answer, given, stored⟩ := tried.exists_stored
  obtain rfl : answer = answers (b.args e.id).index made := given
  rw [b.index_eq] at stored
  exact ⟨made, pos, le, stored⟩

/-- When a pool that keeps the ledger stands still, all chunks are stored, and it has succeeded. -/
theorem settled_of_kept
    (h : (b.ledger by_attempt.promise).Kept isFinal w b.count limit [] pool log begun)
    (pos : 0 < limit) (still : pool.step env isFinal = none) (file : UploadedFile) :
    Settled answers b.attempts limit b.count file
      ((chunksOutcome b.count pool.ended).map (Except.map fun _ => file)) := by
  have perm := h.ended_perm pos still
  have all (i : Nat) (within : i < b.count) : StoredWithin answers b.attempts i :=
    storedWithin_of_ended h (perm.mem_iff.mpr (List.mem_range.mpr within))
  have length := perm.length_eq
  rw [List.length_map, List.length_range] at length
  have outcome : chunksOutcome b.count pool.ended = some (.ok ()) := by
    rw [Batch.chunksOutcome_of_kept h, if_pos length]
  refine ⟨?_, fun some_failed => absurd all some_failed⟩
  rw [outcome]
  exact ⟨fun _ => all, fun _ => rfl⟩

/-- When one chunk is under way at a time, all chunks before the one that aborts a pool are stored. -/
theorem storedWithin_of_lt {i : Nat}
    (h : (b.ledger by_attempt.promise).Kept isFinal w b.count 1 [i] pool log begun) {j : Nat}
    (less : j < i) : StoredWithin answers b.attempts j := by
  have bounded := h.bounded
  have ready : pool.ready = [] :=
    List.eq_nil_of_length_eq_zero (by simp only [List.length_cons, List.length_nil] at bounded; omega)
  have waiting : pool.waiting = [] :=
    List.eq_nil_of_length_eq_zero (by simp only [List.length_cons, List.length_nil] at bounded; omega)
  have within : i < b.count := h.lt_count List.mem_cons_self
  have order := h.order
  have apart := h.apart
  have all := h.all
  rw [Pool.ids, ready, waiting] at apart all
  rw [ready] at order
  simp only [List.filter_nil, List.map_nil, List.nil_append, List.singleton_append] at order apart all
  -- Those that have not begun come after the one that is out, which has begun.
  have queued (k : Nat) : k ∈ pool.queued.map Ready.id ↔ begun ≤ k ∧ k < b.count := by
    rw [order, List.mem_range'_1]
    omega
  have begun_i : i < begun := by
    by_contra late
    have again := (queued i).mpr ⟨Nat.le_of_not_lt late, within⟩
    exact (List.nodup_cons.mp apart).1 (List.mem_append_left _ again)
  have mem := all.mem_iff.mpr (List.mem_range.mpr (Nat.lt_trans less within))
  rcases List.mem_cons.mp mem with rfl | mem
  · exact absurd less (Nat.lt_irrefl j)
  · rcases List.mem_append.mp mem with waits | ended
    · exact absurd (Nat.lt_trans less begun_i) (Nat.not_lt.mpr ((queued j).mp waits).1)
    · exact storedWithin_of_ended h ended

/-- When a pool has been aborted, it has failed for a chunk all of whose attempts fail. -/
theorem settled_of_aborted
    (h : (b.ledger by_attempt.promise).Aborted isFinal w b.count limit pool log) (file : UploadedFile) :
    Settled answers b.attempts limit b.count file
      ((chunksOutcome b.count pool.ended).map (Except.map fun _ => file)) := by
  obtain ⟨before, begun, e, kept, last, ⟨result, ends, final⟩, rfl⟩ := h
  obtain ⟨_, _, _, answer, _, _, _, _, given, tried, failed⟩ := last
  obtain rfl : answer = answers (b.args e.id).index b.attempts := given
  have within : e.id < b.count := kept.lt_count List.mem_cons_self
  have none : ¬ StoredWithin answers b.attempts e.id := by
    rintro ⟨attempt, pos, le, stored⟩
    obtain ⟨answer, given, fault⟩ := tried.exists_fault pos le
    obtain rfl : answer = answers (b.args e.id).index attempt := given
    rw [b.index_eq, stored] at fault
    exact nomatch fault
  rw [Batch.chunksOutcome_of_aborted ends final]
  obtain rfl := Option.some.inj (ends.symm.trans failed)
  rw [b.index_eq]
  refine ⟨⟨(fun same => nomatch same), fun all => absurd (all e.id within) none⟩, fun _ => ?_⟩
  refine ⟨e.id, within, none, rfl, ?_⟩
  rintro rfl j less
  exact storedWithin_of_lt kept less

end Pools

/-- **The number of chunks under way never changes what an upload comes to**, whatever it is and
however long answers take, as long as they depend on the index and the number of the attempt only. An
upload for whose place there is a plan succeeds, with the file in this place, exactly when each chunk
is stored in one of its attempts. Otherwise it fails for a chunk that is stored in none, which is the
first such chunk when one is under way at a time. -/
theorem run_settled {env : Environment storage σ} {sent : σ → UInt32 → Nat}
    {answers : UInt32 → Nat → Except FailedCall ChunkReply}
    (by_attempt : AnswersByAttempt env sent answers) (u : Upload) (c : UploadConfig)
    {w : World storage σ} (unsent : ∀ index, sent w.state index = 0) {a : Allocation}
    (allocated : (env w.state w.now (.allocate u.allocationArgs)).answer
      = (.ok (.success a) : Except FailedCall AllocationReply)) :
    (∀ failure, u.planFor a = .error failure →
      ∀ steps, (u.run StorageClient.direct env steps c w).2 = some (.error failure)) ∧
    ∀ plan, u.planFor a = .ok plan → ∃ enough, ∀ steps, enough ≤ steps →
      Settled answers (max c.chunkAttempts 1) (max c.maxConcurrentChunks 1) plan.chunks.length (fileIn a)
        (u.run StorageClient.direct env steps c w).2 := by
  refine ⟨fun failure no_plan steps => ?_, fun plan planned => ?_⟩
  · have asked := run_direct_eq env w (.allocate u.allocationArgs)
    rw [allocated] at asked
    have refused : u.placeFor (.ok (.success a)) = .error failure := by
      rw [placeFor, no_plan]
      rfl
    rw [run_eq_of_refusal c steps asked refused]
  · have keeps := (by_attempt.sent_allocate w.state w.now u.allocationArgs).trans (funext unsent)
    obtain ⟨enough, reached⟩ := run_of_plan by_attempt.promise c allocated planned keeps
    refine ⟨enough, fun steps le => ?_⟩
    obtain ⟨log, es, ran, standing, still⟩ := reached steps
    rw [ran]
    rcases standing with ⟨_, kept⟩ | aborted
    · exact settled_of_kept kept (Nat.le_max_right c.maxConcurrentChunks 1) (still le) (fileIn a)
    · exact settled_of_aborted aborted (fileIn a)

/-- An upload in three chunks that are tried twice, one at a time. The first is stored at the second
attempt, the second at none. -/
theorem run_settled_second_chunk :
    let a : Allocation := ⟨⟨[7], by decide⟩, 5, 2, ⟨10, 0, 3, 3⟩⟩
    let u : Upload := ⟨[1, 2, 3, 4, 5], "text/plain", [], none, ⟨0, by decide⟩⟩
    let c : UploadConfig := ⟨2, 1, none⟩
    let busy : Except FailedCall ChunkReply := .ok .fileExpired
    let answers : UInt32 → Nat → Except FailedCall ChunkReply := fun index attempt =>
      if index = 1 ∨ index = 0 ∧ attempt = 1 then busy else .ok .success
    let env : Environment storage (UInt32 → Nat) := fun sent now r =>
      match r with
      | .allocate _ => ⟨sent, 4, .ok (.success a)⟩
      | .store _ args => ⟨Function.update sent args.index (sent args.index + 1), now % 3,
          answers args.index (sent args.index + 1)⟩
    ∃ enough, ∀ steps, enough ≤ steps →
      (u.run StorageClient.direct env steps c (.start (fun _ => 0) none)).2
        = some (.error (.chunkFailed 1 2 (faultOf busy))) := by
  intro a u c busy answers env
  let plan : UploadPlan := ⟨u.hash, 5, 2, 3, a.bucket, 5, by decide, by decide⟩
  have planned : u.planFor a = .ok plan :=
    planFor_eq_ok_iff_make.mpr (UploadPlan.make_eq_ok_iff.mpr ⟨rfl, rfl, rfl, rfl, rfl⟩)
  have count := (length_chunks planned).trans (by decide : _ = 3)
  have by_attempt : AnswersByAttempt env id answers :=
    ⟨fun _ _ _ _ => rfl, fun _ _ _ _ => rfl, fun _ _ _ => rfl⟩
  obtain ⟨enough, settled⟩ := (run_settled by_attempt u c (w := .start (fun _ => 0) none)
    (fun _ => rfl) (a := a) rfl).2 _ planned
  refine ⟨enough, fun steps le => ?_⟩
  have settled := settled steps le
  rw [count] at settled
  have first : StoredWithin answers 2 0 := ⟨2, by decide, by decide, rfl⟩
  have second : ¬ StoredWithin answers 2 1 := fun ⟨_, _, _, stored⟩ => nomatch stored
  have third : StoredWithin answers 2 2 := ⟨1, by decide, by decide, rfl⟩
  obtain ⟨i, within, none, outcome, least⟩ := settled.failed fun all => second (all 1 (by decide))
  match i, within, none, outcome, least with
  | 0, _, none, _, _ => exact absurd first none
  | 1, _, _, outcome, _ => exact outcome
  | 2, _, none, _, _ => exact absurd third none

end Upload

end CertifiedCalls
