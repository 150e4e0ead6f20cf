import CertifiedCalls.Proofs.Upload.ChunkLedger
import CertifiedCalls.Proofs.Upload.Partition

/-! # The chunks of an upload
When the index has given a place for which there is a plan, the chunks of the upload are a batch that
runs in a pool. At every moment the pool keeps the ledger of the batch or has been aborted, and after
enough steps it stands still (`Upload.run_of_plan`). -/

namespace CertifiedCalls

variable {σ : Type}

namespace Upload

namespace Batch

variable {env : Environment storage σ} {b : Batch} {promise : Promise env}
  {log : List (Entry storage)} {begun : Nat} {w₀ : World storage σ} {limit : Nat} {out : List Nat}
  {p : Pool storage σ (Except UploadFailure Unit)}

/-- A chunk in a pool that keeps the ledger has not been attempted too often. -/
theorem exists_tried (h : (b.ledger promise).Kept isFinal w₀ b.count limit out p log begun) {i : Nat}
    (mem : i ∈ p.ids) :
    ∃ made standing, made ≤ b.attempts ∧ standing.faults made < b.attempts ∧
      b.Tried promise i made standing (exchangesOf i log) := by
  have going {task : Ready storage (Except UploadFailure Unit)}
      (g : b.Going promise (entriesOf task.id log) task) :
      ∃ made standing, made ≤ b.attempts ∧ standing.faults made < b.attempts ∧
        b.Tried promise task.id made standing (exchangesOf task.id log) := by
    rcases g.nothing_or_asked with ⟨_, nothing⟩ | ⟨_, _, made, number, le, asked⟩
    · refine ⟨0, .failing, Nat.zero_le _, b.pos, ?_⟩
      rw [exchangesOf, nothing]
      exact .none
    · refine ⟨made, .asking number, le, ?_, asked⟩
      have := asked.pos
      show made - 1 < b.attempts
      omega
  rcases List.mem_append.mp mem with mem | mem
  · obtain ⟨task, here, rfl⟩ := List.mem_map.mp mem
    exact going (h.ready task here)
  · rcases List.mem_append.mp mem with mem | mem
    · obtain ⟨e, here, rfl⟩ := List.mem_map.mp mem
      obtain ⟨_, _, _, _, _, g⟩ := h.waiting e here
      exact @going ⟨e.1, _, _⟩ g
    · rcases List.mem_append.mp mem with mem | mem
      · obtain ⟨task, here, rfl⟩ := List.mem_map.mp mem
        exact going (h.queued task here).2
      · obtain ⟨e, here, rfl⟩ := List.mem_map.mp mem
        obtain ⟨_, _, made, le, stored⟩ := h.ended e here
        refine ⟨made, .stored, le, ?_, stored⟩
        have := stored.exists_stored.1
        show made - 1 < b.attempts
        omega

/-- A pool that keeps the ledger has succeeded when all chunks have ended, and has not failed. -/
theorem chunksOutcome_of_kept
    (h : (b.ledger promise).Kept isFinal w₀ b.count limit out p log begun) :
    chunksOutcome b.count p.ended = if p.ended.length = b.count then some (.ok ()) else none := by
  have none : (p.ended.findSome? fun e => e.result.filter isFinal) = none := by
    refine List.findSome?_eq_none_iff.mpr fun e mem => ?_
    obtain ⟨⟨a, result, open_yet⟩, _⟩ := h.ended e mem
    rw [result, Option.filter_some, open_yet]
    rfl
  have all : (p.ended.filter fun e => e.result.isSome) = p.ended := by
    refine List.filter_eq_self.mpr fun e mem => ?_
    obtain ⟨⟨a, result, _⟩, _⟩ := h.ended e mem
    rw [result]
    rfl
  rw [chunksOutcome, none, all]

/-- The outcome of a pool that has been aborted is that of whoever aborted it. -/
theorem chunksOutcome_of_aborted {before : Pool storage σ (Except UploadFailure Unit)}
    {e : Ended (Except UploadFailure Unit)} {result : Except UploadFailure Unit}
    (ends : e.result = some result) (final : isFinal result = true) (count : Nat) :
    chunksOutcome count ({ before with ended := e :: before.ended }).drop.ended = some result := by
  have first : (e :: before.ended).findSome? (fun e => e.result.filter isFinal) = some result := by
    rw [List.findSome?_cons, ends, Option.filter_some, if_pos final]
  show chunksOutcome count (e :: before.ended) = _
  rw [chunksOutcome, first]

end Batch

variable {u : Upload} {a : Allocation} {plan : UploadPlan}

/-- A plan has as many chunks as it takes to cover the file. -/
theorem length_chunks (planned : u.planFor a = .ok plan) :
    plan.chunks.length = rangeCount u.size.toNat a.chunkSize.toNat := by
  obtain ⟨-, total, size, -, -⟩ := UploadPlan.make_eq_ok_iff.mp (planFor_eq_ok_iff_make.mp planned)
  rw [plan.length_chunks, ← plan.counted, total, size]

/-- The **batch** of an upload's chunks. -/
def batch (u : Upload) (c : UploadConfig) (plan : UploadPlan) : Batch where
  bucket := plan.destination
  count := plan.chunks.length
  args i := u.chunkArgs c plan (.ofNat i, .span plan.totalSize plan.chunkSize.toUInt64 i)
  attempts := c.attempts
  index_eq _ := rfl
  count_le := plan.length_chunks ▸ plan.chunkCount.toNat_lt.le
  pos := Nat.le_max_right c.chunkAttempts 1

/-- The workflows of the chunks are attempts. -/
theorem chunkWorkflows_eq (u : Upload) (c : UploadConfig) (plan : UploadPlan) :
    u.chunkWorkflows StorageClient.direct c plan = (List.range plan.chunks.length).map fun i =>
      (u.batch c plan).attempt i (c.attempts - 1) 1 := by
  rw [chunkWorkflows, plan.length_chunks, plan.chunks_eq, List.map_map]
  rfl

/-- The pool of an upload's chunks keeps the ledger when it starts. -/
theorem kept_chunkPool {env : Environment storage σ} (promise : Promise env) (u : Upload)
    (c : UploadConfig) (plan : UploadPlan) (w : World storage σ)
    (keeps : promise.keeps w.state fun _ => 0) :
    ((u.batch c plan).ledger promise).Kept isFinal w (u.batch c plan).count c.concurrency []
      (u.chunkPool StorageClient.direct c plan w) [] 0 := by
  have length : (u.chunkWorkflows StorageClient.direct c plan).length = (u.batch c plan).count :=
    List.length_map _
  rw [← length]
  refine Ledger.kept_start _ isFinal w c.concurrency _
    ⟨Nat.zero_le _, rfl, List.forall_mem_nil _, keeps⟩ fun i p found => ?_
  rw [chunkWorkflows_eq u c plan, List.getElem?_map] at found
  obtain ⟨j, at_i, rfl⟩ := Option.map_eq_some_iff.mp found
  obtain ⟨within, rfl⟩ := List.getElem?_eq_some_iff.mp at_i
  rw [List.getElem_range]
  rw [List.length_range] at within
  exact .fresh within rfl

/-- No answer of the index comes to the failure of a chunk. -/
theorem placeFor_ne_chunkFailed {answer : Except FailedCall AllocationReply} {index : UInt32}
    {made : Nat} {last : ChunkFault} :
    u.placeFor answer ≠ .error (.chunkFailed index made last) := by
  intro place
  cases answer with
  | error failure => cases place
  | ok reply =>
    cases reply with
    | success a =>
      rw [placeFor, planFor] at place
      cases made : UploadPlan.make u.hash u.size a.chunkSize a.bucket a.fileId with
      | ok p =>
        rw [made] at place
        cases place
      | error fault =>
        rw [made] at place
        cases place
    | _ => cases place

/-! ### Runs -/

/-- **An upload with a plan** remarks on the place, runs its chunks and ends as they do. They keep their
ledger, or one of them has aborted the upload, and after enough steps nothing is left to do. -/
theorem run_of_plan {env : Environment storage σ} (promise : Promise env) (c : UploadConfig)
    {w : World storage σ}
    (allocated : (env w.state w.now (.allocate u.allocationArgs)).answer
      = (.ok (.success a) : Except FailedCall AllocationReply)) (planned : u.planFor a = .ok plan)
    (keeps : promise.keeps (env w.state w.now (.allocate u.allocationArgs)).state fun _ => 0) :
    let served := env w.state w.now (.allocate u.allocationArgs)
    let w₁ := (w.afterAnswer 0 (.allocate u.allocationArgs) served).remark 0 [allocatedEvent plan]
    let b := u.batch c plan
    ∃ enough, ∀ steps,
      let pool := (u.chunkPool StorageClient.direct c plan w₁).run env isFinal steps
      ∃ log es, u.run StorageClient.direct env steps c w = (pool.world.remark 0 es,
          (chunksOutcome plan.chunks.length pool.ended).map (Except.map fun _ => fileIn a)) ∧
        ((∃ begun, (b.ledger promise).Kept isFinal w₁ b.count c.concurrency [] pool log begun) ∨
          (b.ledger promise).Aborted isFinal w₁ b.count c.concurrency pool log) ∧
        (enough ≤ steps → pool.step env isFinal = none) := by
  intro served w₁ b
  have asked := run_direct_eq env w (.allocate u.allocationArgs)
  have place := placeFor_eq_ok_iff_planFor.mpr ⟨a, rfl, planned, rfl⟩
  have remarked : w₁ = (w.afterAnswer 0 (.allocate u.allocationArgs) served).remark 0
      (u.placeEvents (.ok (.success a))) := by
    rw [placeEvents, planned]
    rfl
  rw [allocated] at asked
  have start := kept_chunkPool promise u c plan w₁ keeps
  refine ⟨(b.ledger promise).weight b.count (u.chunkPool StorageClient.direct c plan w₁) [],
    fun steps => ?_⟩
  obtain ⟨es, ran⟩ := run_eq_of_place c steps asked place remarked
  obtain ⟨log, standing, still⟩ := start.run (b.sound promise) steps
  exact ⟨log, es, ran, standing, still⟩

end Upload

end CertifiedCalls
