import CertifiedCalls.Proofs.Upload.Chunks

/-! # Attempts accounted for
Whatever the storage answers and however many chunks are under way at a time, no chunk is sent more
often than it may be, none is sent again but for an answer that it is not stored, and when an upload
fails for a chunk, this chunk has used up its attempts and nothing is sent afterwards
(`Upload.run_accounted`). -/

namespace CertifiedCalls

variable {σ β : Type}

namespace Upload

/-- What a record says about chunks **accounts for** the outcome of an upload that tries each of them
so often. -/
structure Accounted (attempts : Nat) (record : List (Entry storage))
    (outcome : Option (Except UploadFailure β)) : Prop where
  /-- No chunk is sent more often. -/
  few : ∀ index, sendings index record ≤ attempts
  /-- A chunk is sent again only at the moment at which the last attempt at it has failed. -/
  sequential : ∀ index front e back, aboutChunk index record = front ++ e :: back →
    isSending e = true → front = [] ∨
      ∃ before last, front = before ++ [last] ∧ isFault last = true ∧ last.time = e.time
  /-- A chunk that has been stored is not sent again. -/
  stored : ∀ index front e back, aboutChunk index record = front ++ e :: back →
    isStored e = true → back = []
  /-- When the upload fails for a chunk, it was sent as often as it may be, and no answer says that it
  is stored. The last of these answers is the failure, and no chunk is sent after it. -/
  failed : ∀ index made last, outcome = some (.error (.chunkFailed index made last)) →
    made = attempts ∧ sendings index record = attempts ∧ faults index record = attempts ∧
      (∀ e ∈ aboutChunk index record, isStored e = false) ∧
      ∃ front e back answer, record = front ++ e :: back ∧ chunkOf e = some index ∧
        chunkAnswer e = some answer ∧ storedBy answer = false ∧ faultOf answer = last ∧
        faults index (front ++ [e]) = attempts ∧ ∀ e' ∈ back, isSending e' = false
  /-- When it succeeds, no chunk has used up its attempts. -/
  ok : ∀ result, outcome = some (.ok result) → ∀ index, faults index record < attempts

/-- Remarks are about no chunk. -/
theorem aboutChunk_remarks (index : UInt32) (time caller : Nat) (es : List Event) :
    aboutChunk index (remarks time caller es) = [] := by
  refine List.filter_eq_nil_iff.mpr fun e mem => ?_
  obtain ⟨_, _, rfl⟩ := List.mem_map.mp mem
  exact Bool.false_ne_true

/-- A record without chunks accounts for any failure that is not that of a chunk. -/
theorem Accounted.of_nothing {attempts : Nat} {record : List (Entry storage)}
    {failure : UploadFailure} (nothing : ∀ index, aboutChunk index record = [])
    (other : ∀ index made last, failure ≠ .chunkFailed index made last) :
    Accounted attempts record (some (.error failure : Except UploadFailure β)) where
  few index := by
    rw [sendings, nothing]
    exact Nat.zero_le _
  sequential index front e back split := by
    rw [nothing] at split
    simp at split
  stored index front e back split := by
    rw [nothing] at split
    simp at split
  failed index made last same := absurd (Except.error.inj (Option.some.inj same)) (other _ _ _)
  ok result same := nomatch same

/-- Remarks before and after change nothing. -/
theorem Accounted.between_remarks {attempts : Nat} {record : List (Entry storage)}
    {outcome : Option (Except UploadFailure β)} (h : Accounted attempts record outcome)
    (time time' caller caller' : Nat) (es es' : List Event) :
    Accounted attempts (remarks time caller es ++ record ++ remarks time' caller' es') outcome := by
  have about (index : UInt32) : aboutChunk index
      (remarks time caller es ++ record ++ remarks time' caller' es') = aboutChunk index record := by
    rw [aboutChunk_append, aboutChunk_append, aboutChunk_remarks, aboutChunk_remarks, List.nil_append,
      List.append_nil]
  refine ⟨fun index => ?_, fun index front e back split => ?_, fun index front e back split => ?_,
    fun index made last same => ?_, fun result same index => ?_⟩
  · rw [sendings, about]
    exact h.few index
  · exact h.sequential index front e back (about index ▸ split)
  · exact h.stored index front e back (about index ▸ split)
  · obtain ⟨all, sent, failed, none, front, e, back, answer, split, here, answered, fault, same, upTo,
      silent⟩ := h.failed index made last same
    rw [sendings, faults, about]
    refine ⟨all, sent, failed, none, remarks time caller es ++ front, e,
      back ++ remarks time' caller' es', answer, ?_, here, answered, fault, same, ?_, ?_⟩
    · rw [split]
      simp only [List.append_assoc, List.cons_append]
    · rw [List.append_assoc, faults, aboutChunk_append, aboutChunk_remarks]
      exact upTo
    · refine List.forall_mem_append.mpr ⟨silent, fun e mem => ?_⟩
      obtain ⟨_, _, rfl⟩ := List.mem_map.mp mem
      rfl
  · rw [faults, about]
    exact h.ok result same index

namespace Batch

variable {env : Environment storage σ} {b : Batch} {promise : Promise env}
  {log : List (Entry storage)} {state : σ} {begun : Nat} {outcome : Option (Except UploadFailure β)}

/-- A batch **accounts** for an outcome when each of its chunks has been attempted in turn, and when
either none of them has used up its attempts, or it is the chunk that the outcome names. -/
theorem Book.accounted (h : b.Book promise log state begun)
    (tried : ∀ i < b.count, ∃ made standing, made ≤ b.attempts ∧
      b.Tried promise i made standing (exchangesOf i log))
    (failed : ∀ index made last, outcome = some (.error (.chunkFailed index made last)) →
      ∃ e : Ended (Except UploadFailure Unit), e.id < b.count ∧ b.Last promise log e ∧
        e.result = some (.error (.chunkFailed index made last)))
    (ok : ∀ result, outcome = some (.ok result) → ∀ i < b.count, ∃ made standing,
      Standing.faults standing made < b.attempts ∧ b.Tried promise i made standing (exchangesOf i log)) :
    Accounted b.attempts log outcome := by
  -- A record is about one of the chunks, or about none.
  have about (index : UInt32) : aboutChunk index log = [] ∨
      ∃ i < b.count, ∃ made standing, made ≤ b.attempts ∧ (b.args i).index = index ∧
        aboutChunk index log = exchangesOf i log ∧
          b.Tried promise i made standing (exchangesOf i log) := by
    by_cases other : ∀ i < b.count, (b.args i).index ≠ index
    · exact .inl (h.aboutChunk_eq_nil other)
    · push Not at other
      obtain ⟨i, within, rfl⟩ := other
      obtain ⟨made, standing, le, attempted⟩ := tried i within
      exact .inr ⟨i, within, made, standing, le, rfl, h.aboutChunk_eq within, attempted⟩
  refine ⟨fun index => ?_, fun index front e back split sends => ?_,
    fun index front e back split stored => ?_, fun index made last same => ?_,
    fun result same index => ?_⟩
  · rcases about index with nothing | ⟨i, _, made, standing, le, _, here, attempted⟩
    · rw [sendings, nothing]
      exact Nat.zero_le _
    · rw [sendings, here, attempted.countP_isSending]
      exact le
  · rcases about index with nothing | ⟨i, _, made, standing, _, _, here, attempted⟩
    · rw [nothing] at split
      simp at split
    · exact attempted.sequential (here ▸ split) sends
  · rcases about index with nothing | ⟨i, _, made, standing, _, _, here, attempted⟩
    · rw [nothing] at split
      simp at split
    · exact attempted.nothing_after (here ▸ split) stored
  · obtain ⟨e, within, ⟨front, time, number, answer, back, split, silent, fault, _, attempted, result⟩,
      same⟩ := failed index made last same
    obtain ⟨rfl, rfl, rfl⟩ := UploadFailure.chunkFailed.inj
      (Except.error.inj (Option.some.inj (result.symm.trans same)))
    have here := h.aboutChunk_eq within
    have none : aboutChunk (b.args e.id).index back = [] := List.filter_eq_nil_iff.mpr fun e mem => by
      rw [chunkOf, silent e mem]
      exact Bool.false_ne_true
    have joined : log = front ++ [⟨time, e.id, b.answered e.id number answer⟩] ++ back := by
      rw [split, List.append_assoc]
      rfl
    have counted : faults (b.args e.id).index log = b.attempts := by
      rw [faults, here]
      exact attempted.countP_isFault
    refine ⟨rfl, ?_, counted, fun e mem => ?_, front, _, back, answer, split, rfl, rfl, fault, rfl, ?_,
      fun e mem => ?_⟩
    · rw [sendings, here]
      exact attempted.countP_isSending
    · exact attempted.isStored_eq_false (by simp) e (here ▸ mem)
    · rw [← counted, joined, faults, faults, aboutChunk_append _ (front ++ _) back, none,
        List.append_nil]
    · rw [isSending, sentChunk_of_no_request (silent e mem)]
      rfl
  · rcases about index with nothing | ⟨i, within, _, _, _, _, here, _⟩
    · rw [faults, nothing]
      exact b.pos
    · obtain ⟨made, standing, less, attempted⟩ := ok result same i within
      rw [faults, here, attempted.countP_isFault]
      exact less

variable {w : World storage σ} {limit : Nat} {pool : Pool storage σ (Except UploadFailure Unit)}

/-- While a pool keeps the ledger, its record accounts for what the chunks have come to. -/
theorem accounted_of_kept
    (h : (b.ledger promise).Kept isFinal w b.count limit [] pool log begun) (file : β) :
    Accounted b.attempts log ((chunksOutcome b.count pool.ended).map (Except.map fun _ => file)) := by
  have mem (i : Nat) (within : i < b.count) : i ∈ pool.ids :=
    h.all.mem_iff.mpr (List.mem_range.mpr within)
  refine h.book.accounted (fun i within => ?_) (fun index made last same => ?_)
    (fun result _ i within => ?_)
  · obtain ⟨made, standing, le, _, tried⟩ := exists_tried h (mem i within)
    exact ⟨made, standing, le, tried⟩
  · rw [chunksOutcome_of_kept h] at same
    split at same <;> exact nomatch same
  · obtain ⟨made, standing, _, less, tried⟩ := exists_tried h (mem i within)
    exact ⟨made, standing, less, tried⟩

/-- So does it when a chunk has aborted the pool. -/
theorem accounted_of_aborted
    (h : (b.ledger promise).Aborted isFinal w b.count limit pool log) (file : β) :
    Accounted b.attempts log ((chunksOutcome b.count pool.ended).map (Except.map fun _ => file)) := by
  obtain ⟨before, begun, e, kept, last, ⟨result, ends, final⟩, rfl⟩ := h
  obtain ⟨_, _, _, _, _, _, _, _, _, all, failed⟩ := id last
  obtain rfl := Option.some.inj (ends.symm.trans failed)
  have within : e.id < b.count := kept.lt_count List.mem_cons_self
  rw [chunksOutcome_of_aborted failed final]
  refine kept.book.accounted (fun i below => ?_) (fun index made cause same => ⟨e, within, last, ?_⟩)
    (fun result same => nomatch same)
  · rcases List.mem_cons.mp (kept.all.mem_iff.mpr (List.mem_range.mpr below)) with rfl | mem
    · exact ⟨_, .failing, Nat.le_refl _, all⟩
    · obtain ⟨made, standing, le, _, tried⟩ := exists_tried kept mem
      exact ⟨made, standing, le, tried⟩
  · rw [failed]
    exact congrArg _ (congrArg _ (Except.error.inj (Option.some.inj same)))

end Batch

/-- **Attempts are accounted for**, whatever the storage answers and however long it takes: each chunk
is sent at most as often as the settings say, again only at the moment at which it was answered as not
stored, and never after it was stored. An upload that fails for a chunk has sent this chunk as often
as it may, got no answer that it is stored, reports the last of the answers, and sends no chunk
afterwards. One that succeeds has used up the attempts at no chunk. -/
theorem run_accounted (u : Upload) (env : Environment storage σ) (steps : Nat) (c : UploadConfig)
    (w : World storage σ) :
    let served := env w.state w.now (.allocate u.allocationArgs)
    ∃ later, (u.run StorageClient.direct env steps c w).1.record = w.record ++
        ⟨w.now, 0, .asked w.asked (.allocate u.allocationArgs)⟩ ::
        ⟨w.now + served.delay, 0,
          .answered (I := storage) w.asked (.allocate u.allocationArgs) served.answer⟩ :: later ∧
      Accounted (max c.chunkAttempts 1) later (u.run StorageClient.direct env steps c w).2 := by
  intro served
  cases place : u.placeFor served.answer with
  | error failure =>
    rw [run_eq_of_refusal c steps (run_direct_eq env w (.allocate u.allocationArgs)) place]
    refine ⟨remarks (w.now + served.delay) 0 (u.placeEvents served.answer), ?_,
      .of_nothing (fun index => aboutChunk_remarks index _ 0 _) ?_⟩
    · rw [World.record_remark, World.record_afterAnswer, List.append_assoc]
      rfl
    · rintro index made last rfl
      exact placeFor_ne_chunkFailed place
  | ok placed =>
    obtain ⟨plan, file⟩ := placed
    obtain ⟨a, allocated, planned, rfl⟩ := placeFor_eq_ok_iff_planFor.mp place
    obtain ⟨_, reached⟩ := run_of_plan (.nothing env) c allocated planned trivial
    obtain ⟨log, es, ran, standing, _⟩ := reached steps
    rw [ran]
    generalize (u.chunkPool StorageClient.direct c plan _).run env isFinal steps = pool at standing ⊢
    obtain ⟨record, accounted⟩ : pool.world.record = _ ++ log ∧ Accounted c.attempts log
        ((chunksOutcome plan.chunks.length pool.ended).map (Except.map fun _ => fileIn a)) := by
      rcases standing with ⟨_, kept⟩ | aborted
      · exact ⟨kept.record, Batch.accounted_of_kept kept (fileIn a)⟩
      · exact ⟨aborted.record, Batch.accounted_of_aborted aborted (fileIn a)⟩
    refine ⟨_, ?_, accounted.between_remarks (w.now + served.delay) pool.world.now 0 0
      [allocatedEvent plan] es⟩
    rw [World.record_remark, record, World.record_remark, World.record_afterAnswer]
    simp only [List.append_assoc]
    rfl

end Upload

end CertifiedCalls
