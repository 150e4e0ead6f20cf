import CertifiedCalls.Proofs.Upload.Accounted

/-! # Chunks under way
At every moment of an upload no more chunks are under way than may be, and those that have been
started are the first ones, each started once and in the order of their indices. While the upload has
not been aborted, no place is left empty as long as there are chunks that have not been started
(`Upload.run_fansOut`). -/

namespace CertifiedCalls

variable {σ : Type}

namespace Upload

/-- The indices of the chunks that are **under way** by a record: the last that it says about them is
that they were sent. -/
def underWay (record : List (Entry storage)) : List UInt32 :=
  (startOrder record).filter fun index => (aboutChunk index record).getLast?.any isSending

/-- The chunks of a pool **fan out**, so many at a time, by the record that the pool has added. -/
structure FansOut (limit count : Nat) (env : Environment storage σ)
    (pool : Pool storage σ (Except UploadFailure Unit)) (log : List (Entry storage)) : Prop where
  /-- No more are under way in the pool than may be. -/
  few : pool.ready.length + pool.waiting.length ≤ limit
  /-- Nor by the record. -/
  few_sent : (underWay log).length ≤ limit
  /-- No chunk is in two places. -/
  once : pool.ids.Nodup
  /-- Those that have been started are the first ones, in the order of their indices. -/
  in_order : ∃ begun ≤ count, startOrder log = (List.range begun).map UInt32.ofNat
  /-- Each has been started once: it was sent again only when an attempt at it had failed. -/
  started_once : ∀ index front e back, aboutChunk index log = front ++ e :: back →
    isSending e = true → front = [] ∨ ∃ before last, front = before ++ [last] ∧ isFault last = true
  /-- When time passes while fewer are under way than may be, all have been started. -/
  busy : ∀ next, pool.step env isFinal = some next → pool.world.now < next.world.now →
    (underWay log).length < limit → startOrder log = (List.range count).map UInt32.ofNat

/-- Only an attempt that is not answered ends with a sending. -/
theorem Attempted.isSending_last_iff {bucket : CanisterId} {args : ChunkArgs} {caller made : Nat}
    {gives : Nat → Except FailedCall ChunkReply → Prop} {standing : Standing}
    {es : List (Entry storage)} (h : Attempted bucket args caller gives made standing es) :
    es.getLast?.any isSending = true ↔ ∃ number, standing = .asking number := by
  cases h with
  | none => simp
  | ask number _ _ => simp [isSending, sentChunk, chunkSent]
  | fail _ _ _ _ | store _ _ _ _ => simp [isSending, sentChunk, chunkAnswered]

/-- Whoever accounts for all attempts has started each chunk once. -/
theorem Accounted.started_once {β : Type} {attempts : Nat} {record : List (Entry storage)}
    {outcome : Option (Except UploadFailure β)} (h : Accounted attempts record outcome)
    (index : UInt32) (front : List (Entry storage)) (e : Entry storage) (back : List (Entry storage))
    (split : aboutChunk index record = front ++ e :: back) (sends : isSending e = true) :
    front = [] ∨ ∃ before last, front = before ++ [last] ∧ isFault last = true :=
  (h.sequential index front e back split sends).imp_right fun ⟨before, last, same, fault, _⟩ =>
    ⟨before, last, same, fault⟩

namespace Batch

variable {env : Environment storage σ} {b : Batch} {promise : Promise env} {w : World storage σ}
  {state : σ} {begun limit : Nat} {out : List Nat} {log : List (Entry storage)}
  {pool : Pool storage σ (Except UploadFailure Unit)}

/-- The numbers of the chunks that are under way by a record. -/
def sentNumbers (begun : Nat) (log : List (Entry storage)) : List Nat :=
  (List.range begun).filter fun i => (exchangesOf i log).getLast?.any isSending

/-- They are those of the indices. -/
theorem Book.underWay_eq (h : b.Book promise log state begun) :
    underWay log = (sentNumbers begun log).map UInt32.ofNat := by
  rw [underWay, h.order, List.filter_map, sentNumbers]
  congr 1
  refine List.filter_congr fun i mem => ?_
  have within : i < b.count := Nat.lt_of_lt_of_le (List.mem_range.mp mem) h.begun_le
  have about := h.aboutChunk_eq within
  rw [b.index_eq] at about
  rw [Function.comp_apply, about]

theorem nodup_sentNumbers (begun : Nat) (log : List (Entry storage)) : (sentNumbers begun log).Nodup :=
  List.nodup_range.filter _

/-- A chunk that has not been started is not under way. -/
theorem not_sent_of_queued (h : (b.ledger promise).Kept isFinal w b.count limit out pool log begun)
    {i : Nat} (mem : i ∈ pool.queued.map Ready.id) : exchangesOf i log = [] := by
  obtain ⟨task, here, rfl⟩ := List.mem_map.mp mem
  obtain ⟨fresh, going⟩ := h.queued task here
  rcases Going.nothing_or_asked going with ⟨_, nothing⟩ | ⟨begun, _⟩
  · rw [exchangesOf, nothing]
    rfl
  · exact absurd fresh begun

/-- No more chunks are under way by the record than in the pool. -/
theorem length_sentNumbers_le
    (h : (b.ledger promise).Kept isFinal w b.count limit out pool log begun) :
    (sentNumbers begun log).length ≤ out.length + pool.ready.length + pool.waiting.length := by
  have subset : sentNumbers begun log ⊆
      out ++ (pool.ready.map Ready.id ++ pool.waiting.map Prod.fst) := by
    intro i mem
    obtain ⟨below, sent⟩ := List.mem_filter.mp mem
    have within : i < b.count := Nat.lt_of_lt_of_le (List.mem_range.mp below) h.book.begun_le
    rcases List.mem_append.mp (h.all.mem_iff.mpr (List.mem_range.mpr within)) with here | here
    · exact List.mem_append_left _ here
    · rw [Pool.ids, ← List.append_assoc] at here
      rcases List.mem_append.mp here with here | left
      · exact List.mem_append_right _ here
      · exfalso
        -- One that has not been started was not sent, and one that has ended was answered.
        rcases List.mem_append.mp left with queued | ended
        · rw [not_sent_of_queued h queued] at sent
          exact absurd sent Bool.false_ne_true
        · obtain ⟨e, at_end, rfl⟩ := List.mem_map.mp ended
          obtain ⟨_, _, _, _, stored⟩ := h.ended e at_end
          obtain ⟨_, ⟨⟩⟩ := stored.isSending_last_iff.mp sent
  have le := ((nodup_sentNumbers begun log).subperm subset).length_le
  simpa only [List.length_append, List.length_map, Nat.add_assoc] using le

/-- When nobody is ready, all that wait are under way. -/
theorem length_waiting_le (h : (b.ledger promise).Kept isFinal w b.count limit out pool log begun) :
    pool.waiting.length ≤ (sentNumbers begun log).length := by
  have subset : pool.waiting.map Prod.fst ⊆ sentNumbers begun log := by
    intro i mem
    obtain ⟨e, here, rfl⟩ := List.mem_map.mp mem
    obtain ⟨time, what, next, _, _, going⟩ := h.waiting e here
    rcases Going.nothing_or_asked going with ⟨fresh, _⟩ | ⟨_, within, made, number, _, asked⟩
    · exact nomatch fresh
    · exact List.mem_filter.mpr ⟨List.mem_range.mpr (h.book.lt_begun within asked),
        asked.isSending_last_iff.mpr ⟨number, rfl⟩⟩
  have apart : (pool.waiting.map Prod.fst).Nodup := by
    have apart := h.apart
    rw [Pool.ids] at apart
    exact (List.nodup_append.mp (List.nodup_append.mp (List.nodup_append.mp apart).2.1).2.1).1
  have le := (apart.subperm subset).length_le
  rwa [List.length_map] at le

/-- A pool that keeps the ledger fans out. -/
theorem fansOut_of_kept (h : (b.ledger promise).Kept isFinal w b.count limit [] pool log begun) :
    FansOut limit b.count env pool log := by
  have bounded := h.bounded
  have sent : (underWay log).length = (sentNumbers begun log).length := by
    rw [h.book.underWay_eq, List.length_map]
  simp only [List.length_nil, Nat.zero_add] at bounded
  refine ⟨bounded, ?_, h.apart, ⟨begun, h.book.begun_le, h.book.order⟩,
    (accounted_of_kept h ()).started_once, fun next step later idle => ?_⟩
  · have le := length_sentNumbers_le h
    simp only [List.length_nil, Nat.zero_add] at le
    omega
  · have ready := Pool.ready_eq_nil_of_later step later
    have le := length_waiting_le h
    have queued : pool.queued = [] := by
      by_contra some_queued
      have full := h.full some_queued
      rw [ready] at full
      simp only [List.length_nil, Nat.zero_add] at full
      omega
    have order := congrArg List.length h.order
    rw [ready, queued] at order
    simp only [List.filter_nil, List.map_nil, List.append_nil, List.length_nil,
      List.length_range'] at order
    have all : begun = b.count := by
      have := h.book.begun_le
      omega
    rw [h.book.order, all]

/-- So does one that has been aborted. -/
theorem fansOut_of_aborted (h : (b.ledger promise).Aborted isFinal w b.count limit pool log) :
    FansOut limit b.count env pool log := by
  have aborted := h
  obtain ⟨before, begun, e, kept, _, _, rfl⟩ := h
  have bounded := kept.bounded
  refine ⟨Nat.zero_le _, ?_, ?_, ⟨begun, kept.book.begun_le, kept.book.order⟩,
    (accounted_of_aborted aborted ()).started_once, fun next step => nomatch step⟩
  · have le := length_sentNumbers_le kept
    rw [kept.book.underWay_eq, List.length_map]
    exact Nat.le_trans le bounded
  · have apart := kept.apart
    rw [Pool.ids] at apart
    have ended : (e.id :: before.ended.map Ended.id).Sublist ([e.id] ++ (before.ready.map Ready.id ++
        (before.waiting.map Prod.fst ++ (before.queued.map Ready.id ++ before.ended.map Ended.id)))) := by
      refine List.Sublist.append (List.Sublist.refl [e.id]) ?_
      exact ((List.sublist_append_right _ _).trans (List.sublist_append_right _ _)).trans
        (List.sublist_append_right _ _)
    exact apart.sublist ended

end Batch

/-- **Chunks fan out** in every upload for whose place there is a plan, whatever the storage answers and
however long it takes. After any number of steps no more chunks are under way than the settings allow,
those that have been sent are the first ones, in the order of their indices, and when time passes with
fewer under way, all have been sent, unless the upload has been aborted. -/
theorem run_fansOut (u : Upload) (env : Environment storage σ) (steps : Nat) (c : UploadConfig)
    (w : World storage σ) {a : Allocation} {plan : UploadPlan}
    (allocated : (env w.state w.now (.allocate u.allocationArgs)).answer
      = (.ok (.success a) : Except FailedCall AllocationReply)) (planned : u.planFor a = .ok plan) :
    let served := env w.state w.now (.allocate u.allocationArgs)
    let w₁ := (w.afterAnswer 0 (.allocate u.allocationArgs) served).remark 0 [allocatedEvent plan]
    let pool := (u.chunkPool StorageClient.direct c plan w₁).run env isFinal steps
    ∃ log es, (u.run StorageClient.direct env steps c w).1 = pool.world.remark 0 es ∧
      pool.world.record = w₁.record ++ log ∧
      FansOut (max c.maxConcurrentChunks 1) plan.chunks.length env pool log := by
  intro served w₁ pool
  obtain ⟨_, reached⟩ := run_of_plan (.nothing env) c allocated planned trivial
  obtain ⟨log, es, ran, standing, _⟩ := reached steps
  refine ⟨log, es, congrArg Prod.fst ran, ?_⟩
  rcases standing with ⟨_, kept⟩ | aborted
  · exact ⟨kept.record, Batch.fansOut_of_kept kept⟩
  · exact ⟨aborted.record, Batch.fansOut_of_aborted aborted⟩

/-- Three chunks, two at a time, of which the later ones take longer. -/
theorem run_fansOut_three :
    let a : Allocation := ⟨⟨[7], by decide⟩, 5, 2, ⟨10, 0, 3, 3⟩⟩
    let u : Upload := ⟨[1, 2, 3, 4, 5], "text/plain", [], none, ⟨0, by decide⟩⟩
    let c : UploadConfig := ⟨1, 2, none⟩
    let env : Environment storage Unit := fun _ _ r =>
      match r with
      | .allocate _ => ⟨(), 4, .ok (.success a)⟩
      | .store _ args => ⟨(), args.index.toNat + 1, .ok .success⟩
    let w : World storage Unit := .start () none
    let r : StorageRequest := .allocate u.allocationArgs
    ∃ plan, u.planFor a = .ok plan ∧ plan.chunks.length = 3 ∧
      let w₁ := (w.afterAnswer 0 r (env () 0 r)).remark 0 [allocatedEvent plan]
      let pool := (u.chunkPool StorageClient.direct c plan w₁).run env isFinal 4
      pool.ended.length = 1 ∧ ∃ log es,
        (u.run StorageClient.direct env 4 c w).1 = pool.world.remark 0 es ∧
        pool.world.record = w₁.record ++ log ∧ FansOut 2 3 env pool log := by
  intro a u c env w r
  let plan : UploadPlan := ⟨u.hash, 5, 2, 3, a.bucket, 5, by decide, by decide⟩
  have planned : u.planFor a = .ok plan :=
    planFor_eq_ok_iff_make.mpr (UploadPlan.make_eq_ok_iff.mpr ⟨rfl, rfl, rfl, rfl, rfl⟩)
  have count := (length_chunks planned).trans (by decide : _ = 3)
  have fans := run_fansOut u env 4 c w (a := a) rfl planned
  rw [count] at fans
  exact ⟨_, planned, count, by decide +kernel, fans⟩

end Upload

end CertifiedCalls
