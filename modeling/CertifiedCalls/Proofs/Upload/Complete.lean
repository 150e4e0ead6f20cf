import CertifiedCalls.Proofs.Upload.Partition
import CertifiedCalls.Proofs.Upload.Storing

/-! # Complete uploads
Whatever the storage does, an upload asks the index once, for a place for exactly this content, and
sends chunks of exactly this content to exactly this place. When it succeeds, each chunk was answered
as stored (`Upload.run_faithful`). -/

namespace CertifiedCalls

variable {σ : Type}

/-- A record says that a request to a storage was **made**. -/
def Asked (record : List (Entry storage)) (r : StorageRequest) : Prop :=
  ∃ entry ∈ record, ∃ number, entry.what = .asked number r

/-- A record says that a request to a storage was made and **answered**. -/
def Answered (record : List (Entry storage)) (r : StorageRequest)
    (answer : Except FailedCall r.Result) : Prop :=
  ∃ number, (∃ entry ∈ record, entry.what = .asked number r) ∧
    ∃ entry ∈ record, entry.what = .answered (I := storage) number r answer

/-- What a part of a record says, the record says. -/
theorem Answered.of_subset {part whole : List (Entry storage)} {r : StorageRequest}
    {answer : Except FailedCall r.Result} (h : Answered part r answer) (subset : part ⊆ whole) :
    Answered whole r answer := by
  obtain ⟨number, ⟨asked, mem, e⟩, ⟨answered, mem', e'⟩⟩ := h
  exact ⟨number, ⟨asked, subset mem, e⟩, answered, subset mem', e'⟩

namespace Upload

/-- How many chunks of an allocated size the content has. -/
def chunkCount (u : Upload) (a : Allocation) : Nat :=
  rangeCount u.content.length a.chunkSize.toNat

/-- A place **can take** a file when chunks have a size and 32 bits count them. -/
def FitsIn (u : Upload) (a : Allocation) : Prop := a.chunkSize ≠ 0 ∧ u.chunkCount a < 4294967296

/-- What is sent with **the chunk of an index** to an allocated place. -/
def argsAt (u : Upload) (c : UploadConfig) (a : Allocation) (i : Nat) : ChunkArgs where
  accessors := u.accessors
  index := .ofNat i
  fileId := a.fileId
  hash := .of u.content
  mimeType := u.mimeType
  totalSize := .ofNat u.content.length
  bytes := chunkAt u.content a.chunkSize.toNat i
  chunkSize := a.chunkSize
  expiry := u.expiry.orElse fun _ => c.expiryMillis

/-- What an upload does after the answer of the index is **faithful** to its content and to the place
that the index gave. -/
structure Faithful (u : Upload) (c : UploadConfig) (answer : Except FailedCall AllocationReply)
    (later : List (Entry storage)) (outcome : Option (Except UploadFailure UploadedFile)) : Prop where
  /-- The index is not asked again. -/
  once : ∀ args, ¬ Asked later (.allocate args)
  /-- Without a place that can take the file the upload fails and sends no chunk. -/
  refused : (∀ a, answer = .ok (.success a) → ¬ u.FitsIn a) →
    (∃ failure, outcome = some (.error failure)) ∧ ∀ bucket args, ¬ Asked later (.store bucket args)
  /-- Only chunks of the content are sent, and only to the place. -/
  sent : ∀ bucket args, Asked later (.store bucket args) →
    ∃ a, answer = .ok (.success a) ∧ u.FitsIn a ∧ ∃ i < u.chunkCount a,
      args.index.toNat = i ∧ bucket = a.bucket ∧ args = u.argsAt c a i
  /-- A file that is reported is in the place, and each of its chunks was answered as stored. -/
  stored : ∀ file, outcome = some (.ok file) →
    ∃ a, answer = .ok (.success a) ∧ u.FitsIn a ∧ file = fileIn a ∧ ∀ i < u.chunkCount a,
      ∃ reply, ChunkReply.isStored reply = true ∧
        Answered later (.store a.bucket (u.argsAt c a i)) (.ok reply)
  /-- Chunks that were sent, one for each index, are the content when they are put together. -/
  whole : ∀ a, answer = .ok (.success a) → u.FitsIn a → ∀ pick : Nat → ChunkArgs,
    (∀ i < u.chunkCount a, (pick i).index.toNat = i ∧ ∃ bucket, Asked later (.store bucket (pick i))) →
      ((List.range (u.chunkCount a)).flatMap fun i => (pick i).bytes) = u.content

/-! ### Plans of places -/

section Places

variable {J : Interface} {u : Upload} {a : Allocation} {c : UploadConfig} {plan : UploadPlan}

/-- The size of a content that memory can hold is its length. -/
theorem toNat_size (short : u.content.length < 9223372036854775808) :
    u.size.toNat = u.content.length :=
  UInt64.toNat_ofNat_of_lt' (show u.content.length < 18446744073709551616 by omega)

/-- There is a plan for a place exactly when it can take the file. -/
theorem exists_planFor_iff (short : u.content.length < 9223372036854775808) :
    (∃ plan, u.planFor a = .ok plan) ↔ u.FitsIn a := by
  simp only [planFor_eq_ok_iff_make, UploadPlan.exists_make_eq_ok_iff, toNat_size short, FitsIn,
    chunkCount]

/-- What the plan has in store for a chunk is what is sent with its index. -/
theorem chunkArgs_of_planFor (short : u.content.length < 9223372036854775808)
    (planned : u.planFor a = .ok plan) {i : Nat} (within : i < u.chunkCount a) :
    u.chunkArgs c plan (.ofNat i, .span plan.totalSize plan.chunkSize.toUInt64 i)
      = u.argsAt c a i := by
  obtain ⟨hash, total, size, -, fileId⟩ :=
    UploadPlan.make_eq_ok_iff.mp (planFor_eq_ok_iff_make.mp planned)
  have pos : 0 < a.chunkSize.toNat := size ▸ plan.chunkSize_pos
  have bytes : (ByteRange.span u.size a.chunkSize.toUInt64 i).slice u.content
      = chunkAt u.content a.chunkSize.toNat i :=
    slice_span short ((lt_rangeCount_iff pos).mp within)
  rw [chunkArgs, hash, total, size, fileId, bytes]
  rfl

/-- The workflows of the chunks store what is sent with each index. -/
theorem chunkWorkflows_of_planFor (short : u.content.length < 9223372036854775808)
    (planned : u.planFor a = .ok plan) (client : StorageClient J) :
    u.chunkWorkflows client c plan = (List.range (u.chunkCount a)).map fun i =>
      (tryChunk a.bucket (u.argsAt c a i) (c.attempts - 1) 1).run.through client := by
  obtain ⟨-, total, size, destination, -⟩ :=
    UploadPlan.make_eq_ok_iff.mp (planFor_eq_ok_iff_make.mp planned)
  have count : plan.chunkCount.toNat = u.chunkCount a := by
    rw [← plan.counted, total, size, toNat_size short, chunkCount]
  rw [chunkWorkflows, plan.chunks_eq, count, List.map_map]
  refine List.map_congr_left fun i mem => ?_
  simp only [Function.comp_apply, storeChunk]
  rw [chunkArgs_of_planFor short planned (List.mem_range.mp mem), destination]

/-- Whatever a workflow of the chunks has done is the beginning of a course of attempts at one chunk. -/
theorem course_of_chunk {σ : Type} {client : StorageClient J} {env : Environment J σ} {w : World J σ}
    {pool : Pool J σ (Except UploadFailure Unit)} {trace : List (Act J)}
    (short : u.content.length < 9223372036854775808) (planned : u.planFor a = .ok plan)
    (explained : pool.Explained env (u.chunkWorkflows client c plan) w trace) {id : Nat}
    (some_done : own id trace ≠ []) :
    ∃ i < u.chunkCount a, ∃ since more r t,
      Course id ((tryChunk a.bucket (u.argsAt c a i) (c.attempts - 1) 1).run.through client) since
        (own id trace ++ more) r t := by
  obtain ⟨q, mem, since, more, r, t, course⟩ := explained.exists_course some_done
  rw [chunkWorkflows_of_planFor short planned] at mem
  obtain ⟨i, within, rfl⟩ := List.mem_map.mp mem
  exact ⟨i, List.mem_range.mp within, since, more, r, t, course⟩

/-- When the chunks succeed together, the request for each of them was answered as stored. -/
theorem course_of_stored {σ : Type} {client : StorageClient J} {env : Environment J σ} {w : World J σ}
    {pool : Pool J σ (Except UploadFailure Unit)} {trace : List (Act J)}
    (short : u.content.length < 9223372036854775808) (planned : u.planFor a = .ok plan)
    (explained : pool.Explained env (u.chunkWorkflows client c plan) w trace)
    (success : chunksOutcome plan.chunks.length pool.ended = some (.ok ())) {i : Nat}
    (within : i < u.chunkCount a) :
    ∃ reply as bs cs s s', own i trace = as ++ bs ++ cs ∧ ChunkReply.isStored reply = true ∧
      Course i (client (.store a.bucket (u.argsAt c a i))) s bs (.done (.ok reply)) s' := by
  have found : (u.chunkWorkflows client c plan)[i]? = some
      ((tryChunk a.bucket (u.argsAt c a i) (c.attempts - 1) 1).run.through client) := by
    rw [chunkWorkflows_of_planFor short planned, List.getElem?_map, List.getElem?_range within]
    rfl
  obtain ⟨s, s', course⟩ := course_of_chunksOutcome explained success found
  exact stored_of_tryChunk course

end Places

/-! ### The storage itself -/

section Direct

variable {id t v : Nat} {acts : List (Act storage)} {r : StorageRequest}

/-- A request to the storage itself is recorded with its answer. -/
theorem run_direct (env : Environment storage σ) (w : World storage σ) (r : StorageRequest) :
    ∃ answer time w', (StorageClient.direct r).run env w = (w', some answer) ∧
      w'.record = w.record ++ [⟨w.now, 0, .asked w.asked r⟩,
        ⟨time, 0, .answered (I := storage) w.asked r answer⟩] :=
  ⟨_, _, _, run_direct_eq env w r, World.record_afterAnswer w 0 r _⟩

/-- A request to the storage itself that comes to an answer is recorded with it. -/
theorem answered_of_direct {answer : Except FailedCall r.Result}
    (h : Course id (StorageClient.direct r) t acts (.done answer) v) :
    Answered (kept acts) r answer := by
  obtain ⟨number, _, _, rfl⟩ := Course.of_ask (I := storage) (r := r) h
  exact ⟨number, ⟨_, List.mem_cons_self, rfl⟩, _, List.mem_cons_of_mem _ List.mem_cons_self, rfl⟩

/-- Acts **keep to** one request. -/
def KeepsTo (r : StorageRequest) (acts : List (Act storage)) : Prop :=
  ∀ a ∈ acts, ∀ number r', a.deed = .kept (.asked number r') → r' = r

/-- A request to the storage itself keeps to it. -/
theorem always_keepsTo (id : Nat) (r : StorageRequest) :
    (StorageClient.direct r).Always id (KeepsTo r) := by
  intro t acts q v course a mem number r' asked
  have confined : (StorageClient.direct r).Confined (· = r) fun _ => False :=
    show _ ∧ _ from ⟨rfl, fun answer => by cases answer <;> trivial⟩
  have within := confined.of_course course a mem
  rw [asked] at within
  exact within

/-- The attempts at a chunk keep to the request for this chunk. -/
theorem keepsTo_of_tryChunk {bucket : CanisterId} {args : ChunkArgs} {left attempt : Nat}
    {q : Workflow storage (Except UploadFailure Unit)}
    (h : Course id ((tryChunk bucket args left attempt).run.through StorageClient.direct) t acts q v) :
    KeepsTo (.store bucket args) acts := by
  refine always_tryChunk (P := KeepsTo (.store bucket args)) ?_ ?_ ?_ (always_keepsTo id _) left
    attempt _ _ _ _ h
  · exact List.forall_mem_nil _
  · exact fun as bs front after => List.forall_mem_append.mpr ⟨front, after⟩
  · exact fun t e => List.forall_mem_singleton.mpr fun number r' asked => nomatch asked

end Direct

/-! ### Runs -/

section Runs

variable {env : Environment storage σ} {u : Upload} {c : UploadConfig} {a : Allocation}
  {plan : UploadPlan}
  {w : World storage σ} {pool : Pool storage σ (Except UploadFailure Unit)}
  {trace : List (Act storage)}

/-- What acts asked for is what their record says was asked for. -/
theorem exists_act_of_asked {acts : List (Act storage)} {r : StorageRequest}
    (h : Asked (kept acts) r) :
    ∃ a ∈ acts, ∃ number, a.deed = .kept (.asked number r) := by
  obtain ⟨entry, mem, number, asked⟩ := h
  exact ⟨_, mem_kept_iff.mp mem, number, congrArg Deed.kept asked⟩

/-- Chunks that run side by side only ask for chunks of the content, in the place. -/
theorem eq_store_of_asked (short : u.content.length < 9223372036854775808)
    (planned : u.planFor a = .ok plan)
    (explained : pool.Explained env (u.chunkWorkflows StorageClient.direct c plan) w trace)
    {r : StorageRequest} {act : Act storage} (mem : act ∈ trace) {number : Nat}
    (asked : act.deed = .kept (.asked number r)) :
    ∃ i < u.chunkCount a, r = .store a.bucket (u.argsAt c a i) := by
  -- The act belongs to one of the chunks, whose attempts keep to one request.
  have mine : act ∈ own act.caller trace := List.mem_filter.mpr ⟨mem, decide_eq_true rfl⟩
  obtain ⟨i, within, since, more, q, t, course⟩ :=
    course_of_chunk short planned explained (List.ne_nil_of_mem mine)
  refine ⟨i, within, ?_⟩
  exact keepsTo_of_tryChunk course act (List.mem_append_left _ mine) number r asked

/-- When the chunks succeed together, each of them was answered as stored. -/
theorem answered_of_chunksOutcome (short : u.content.length < 9223372036854775808)
    (planned : u.planFor a = .ok plan)
    (explained : pool.Explained env (u.chunkWorkflows StorageClient.direct c plan) w trace)
    (success : chunksOutcome plan.chunks.length pool.ended = some (.ok ())) {i : Nat}
    (within : i < u.chunkCount a) :
    ∃ reply, ChunkReply.isStored reply = true ∧
      Answered (kept trace) (.store a.bucket (u.argsAt c a i)) (.ok reply) := by
  obtain ⟨reply, as, bs, cs, t, t', split, stored, request⟩ :=
    course_of_stored short planned explained success within
  refine ⟨reply, stored, (answered_of_direct request).of_subset fun entry mem => ?_⟩
  -- What is in the course of the chunk is in the whole trace.
  have mine : ⟨entry.time, entry.caller, .kept entry.what⟩ ∈ own i trace := by
    rw [split]
    exact List.mem_append_left _ (List.mem_append_right _ (mem_kept_iff.mp mem))
  exact mem_kept_iff.mpr (List.mem_filter.mp mine).1

/-- What is sent with an index carries the index. -/
theorem toNat_index_argsAt (fits : u.FitsIn a) {i : Nat} (within : i < u.chunkCount a) :
    (u.argsAt c a i).index.toNat = i :=
  UInt32.toNat_ofNat_of_lt' (Nat.lt_trans within fits.2)

/-- Octets that are those of the chunk of each index are the content when they are put together. -/
theorem flatMap_eq_content (fits : u.FitsIn a) {octets : Nat → Bytes}
    (each : ∀ i < u.chunkCount a, octets i = (u.argsAt c a i).bytes) :
    (List.range (u.chunkCount a)).flatMap octets = u.content := by
  have pos : 0 < a.chunkSize.toNat :=
    Nat.pos_of_ne_zero fun zero => fits.1 (UInt32.toNat_inj.mp zero)
  calc (List.range (u.chunkCount a)).flatMap octets
      = (List.range (u.chunkCount a)).flatMap (chunkAt u.content a.chunkSize.toNat) := by
        rw [List.flatMap_def, List.flatMap_def]
        exact congrArg _ (List.map_congr_left fun i mem => each i (List.mem_range.mp mem))
    _ = u.content := flatMap_chunkAt u.content pos

/-- An upload that fails and asks for nothing more is faithful when there was no place. -/
theorem Faithful.of_refusal {answer : Except FailedCall AllocationReply}
    {later : List (Entry storage)} {failure : UploadFailure}
    (refused : ∀ a, answer = .ok (.success a) → ¬ u.FitsIn a) (silent : ∀ r, ¬ Asked later r) :
    u.Faithful c answer later (some (.error failure)) where
  once _ := silent _
  refused _ := ⟨⟨failure, rfl⟩, fun _ _ => silent _⟩
  sent _ _ asked := absurd asked (silent _)
  stored _ e := nomatch e
  whole b e fits := absurd fits (refused b e)

/-- An upload that asks for nothing more than chunks of its content, in the place that the index gave,
is faithful when each of them was answered as stored if it succeeds. -/
theorem Faithful.of_place {later : List (Entry storage)}
    {outcome : Option (Except UploadFailure UploadedFile)} (fits : u.FitsIn a)
    (sent : ∀ r, Asked later r → ∃ i < u.chunkCount a, r = .store a.bucket (u.argsAt c a i))
    (stored : ∀ file, outcome = some (.ok file) → file = fileIn a ∧ ∀ i < u.chunkCount a,
      ∃ reply, ChunkReply.isStored reply = true ∧
        Answered later (.store a.bucket (u.argsAt c a i)) (.ok reply)) :
    u.Faithful c (.ok (.success a)) later outcome where
  once _ asked := by
    obtain ⟨_, _, e⟩ := sent _ asked
    exact nomatch e
  refused none := absurd fits (none a rfl)
  sent _ _ asked := by
    obtain ⟨i, within, e⟩ := sent _ asked
    obtain ⟨rfl, rfl⟩ := StorageRequest.store.inj e
    exact ⟨a, rfl, fits, i, within, toNat_index_argsAt fits within, rfl, rfl⟩
  stored file e := by
    obtain ⟨same, all⟩ := stored file e
    exact ⟨a, rfl, fits, same, all⟩
  whole b e _ pick picked := by
    obtain rfl := AllocationReply.success.inj (Except.ok.inj e)
    refine flatMap_eq_content (c := c) fits fun i within => ?_
    -- The index that a chunk carries tells which one it is, so it decides its bytes.
    obtain ⟨index, bucket, asked⟩ := picked i within
    obtain ⟨j, below, e⟩ := sent _ asked
    obtain ⟨_, same⟩ := StorageRequest.store.inj e
    rw [same, toNat_index_argsAt fits below] at index
    rw [same, index]

/-- **Uploads are faithful**, whatever the storage answers and however long it takes: the index is
asked once, first, for a place for exactly this content; only chunks of exactly this content are sent
to exactly this place; and a file that is reported has had each of its chunks answered as stored. -/
theorem run_faithful (u : Upload) (env : Environment storage σ) (steps : Nat) (c : UploadConfig)
    (w : World storage σ) (short : u.content.length < 9223372036854775808) :
    u.allocationArgs.fileHash = .of u.content ∧
      u.allocationArgs.fileSize.toNat = u.content.length ∧
      ∃ answer time later,
        (u.run StorageClient.direct env steps c w).1.record = w.record ++
          ⟨w.now, 0, .asked w.asked (.allocate u.allocationArgs)⟩ ::
          ⟨time, 0, .answered (I := storage) w.asked (.allocate u.allocationArgs) answer⟩ :: later ∧
        u.Faithful c answer later (u.run StorageClient.direct env steps c w).2 := by
  refine ⟨rfl, toNat_size short, ?_⟩
  obtain ⟨answer, time, w₀, asked, record⟩ := run_direct env w (.allocate u.allocationArgs)
  -- After the answer of the index there is a refusal, or a place where the chunks run side by side.
  cases place : u.placeFor answer with
  | error failure =>
    obtain ⟨remarks, outcome, passage, all⟩ := run_of_refusal c steps asked place
    refine ⟨answer, time, kept remarks, ?_, ?_⟩
    · rw [passage.record, record, List.append_assoc]
      rfl
    · rw [outcome]
      refine .of_refusal (fun a e fits => ?_) fun r asked => ?_
      · obtain ⟨plan, planned⟩ := (exists_planFor_iff short).mpr fits
        have placed := placeFor_eq_ok_iff_planFor.mpr ⟨a, e, planned, rfl⟩
        rw [place] at placed
        exact nomatch placed
      · obtain ⟨act, mem, number, deed⟩ := exists_act_of_asked asked
        obtain ⟨e, said⟩ := all act mem
        exact nomatch said.symm.trans deed
  | ok placed =>
    obtain ⟨plan, file⟩ := placed
    obtain ⟨a, rfl, planned, rfl⟩ := placeFor_eq_ok_iff_planFor.mp place
    have fits := (exists_planFor_iff short).mp ⟨plan, planned⟩
    obtain ⟨remarks, w₁, trace, pool, closing, before, remarked, explained, after, closed, outcome⟩ :=
      run_of_place c steps asked place
    refine ⟨_, time, kept (remarks ++ trace ++ closing), ?_, .of_place fits ?_ ?_⟩
    · rw [after.record, explained.passage.record, before.record, record, kept_append, kept_append]
      simp only [List.append_assoc]
      rfl
    · intro r asked
      obtain ⟨act, mem, number, deed⟩ := exists_act_of_asked asked
      have silent (remark : act.IsRemark) : ∃ i < u.chunkCount a,
          r = .store a.bucket (u.argsAt c a i) := by
        obtain ⟨e, said⟩ := remark
        exact nomatch said.symm.trans deed
      rcases List.mem_append.mp mem with mem | mem
      · rcases List.mem_append.mp mem with mem | mem
        · exact silent (remarked act mem)
        · exact eq_store_of_asked short planned explained mem deed
      · exact silent (closed act mem)
    · intro file e
      rw [outcome] at e
      obtain ⟨result, success, e⟩ := Option.map_eq_some_iff.mp e
      cases result with
      | error failure => exact nomatch e
      | ok _ =>
        refine ⟨(Except.ok.inj e).symm, fun i within => ?_⟩
        obtain ⟨reply, stored, answered⟩ :=
          answered_of_chunksOutcome short planned explained success within
        refine ⟨reply, stored, answered.of_subset fun entry mem => ?_⟩
        rw [kept_append, kept_append]
        exact List.mem_append_left _ (List.mem_append_right _ mem)

/-- An upload of three octets in two chunks, each of which is stored at once. -/
theorem run_faithful_three :
    let a : Allocation := ⟨⟨[7], by decide⟩, 5, 2, ⟨10, 0, 3, 3⟩⟩
    let u : Upload := ⟨[1, 2, 3], "text/plain", [], none, ⟨0, by decide⟩⟩
    let env : Environment storage Unit := fun _ _ r =>
      match r with
      | .allocate _ => ⟨(), 4, .ok (.success a)⟩
      | .store _ _ => ⟨(), 3, .ok .success⟩
    let ran := u.run StorageClient.direct env 10 .standard (.start () none)
    u.content.length < 9223372036854775808 ∧ ran.2 = some (.ok (fileIn a)) ∧
      ∃ answer time later,
        ran.1.record = ⟨0, 0, .asked 0 (.allocate u.allocationArgs)⟩ ::
          ⟨time, 0, .answered (I := storage) 0 (.allocate u.allocationArgs) answer⟩ :: later ∧
        u.Faithful .standard answer later ran.2 := by
  intro a u env ran
  have reported : ran.2.bind Except.toOption = some (fileIn a) := by decide +kernel
  have result : ran.2 = some (.ok (fileIn a)) := by
    generalize ran.2 = outcome at reported
    match outcome, reported with
    | some (.ok file), same => exact congrArg (some ∘ Except.ok) (Option.some.inj same)
  exact ⟨by decide, result, (run_faithful u env 10 .standard (.start () none) (by decide)).2.2⟩

end Runs

end Upload

end CertifiedCalls
