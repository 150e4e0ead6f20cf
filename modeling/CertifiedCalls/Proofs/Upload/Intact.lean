import CertifiedCalls.Proofs.Call.Asking
import CertifiedCalls.Proofs.Call.Authentic
import CertifiedCalls.Proofs.Call.QueryCourse
import CertifiedCalls.Proofs.Upload.Complete
import CertifiedCalls.Proofs.Upload.Wire

/-! # Intact uploads
An upload through an agent that succeeds has left the whole content with the bucket, octet by octet:
whatever the transport does, each chunk was submitted in a call whose own request is certified to have
been answered as stored, and the octets of these calls tell the content (`Upload.run_intact`). -/

namespace CertifiedCalls

variable {σ : Type}

/-- A record says that octets were **sent** to a canister as a chunk. -/
def ChunkSent (record : List (Entry platform)) (target : CanisterId) (arg : Bytes) : Prop :=
  ∃ entry ∈ record, ∃ number,
    entry.what = .asked (I := platform) number (.update target "upload_chunk_v2_msgpack" arg)

/-- A record says that an index **gave** a place: the only reply to a query is the reply of the index,
and names the place. -/
def Given (record : List (Entry platform)) (index : CanisterId) (a : Allocation) : Prop :=
  ∃ caller arg reply v,
    Recorded record caller (.query index "allocated_bucket_v2_msgpack" arg) (.ok (.replied reply)) ∧
    AllocationReply.schema.decode reply = .ok v ∧ a.NamedIn v ∧
    ∀ caller' target method arg' other,
      Recorded record caller' (.query target method arg') (.ok (.replied other)) → other = reply

/-- Octets that were sent with a chunk are **certified** to be stored: a certificate vouches for a reply
to their own request, which says that the chunk is stored now or was before. -/
def CertifiedStored (verify : Verifier) (configured : Option Bytes) (record : List (Entry platform))
    (call : Call) (arg : Bytes) : Prop :=
  ∃ caller id reply v, Vouched verify configured record caller call arg id (.replied reply) ∧
    ChunkReply.schema.decode reply = .ok v ∧
    (v = .variant "Success" none ∨ v = .variant "ChunkAlreadyExists" none)

namespace Upload

/-- What a record says of the chunks of an upload is **intact**. -/
structure Intact (u : Upload) (c : UploadConfig) (verify : Verifier) (configured : Option Bytes)
    (record : List (Entry platform)) (a : Allocation) : Prop where
  /-- The place can take the file. -/
  fits : u.FitsIn a
  /-- Whatever is sent as a chunk goes to the bucket and tells a chunk of the content. -/
  sent : ∀ target arg, ChunkSent record target arg →
    target = a.bucket ∧ ∃ i < u.chunkCount a, (u.argsAt c a i).Told arg
  /-- Octets that tell each index were sent, and are certified to be stored. -/
  stored : ∀ i < u.chunkCount a, ∃ arg, ChunkSent record a.bucket arg ∧
    chunkField arg "chunk_index" = some (.nat i) ∧
    CertifiedStored verify configured record ((u.argsAt c a i).call a.bucket) arg
  /-- Octets that were sent and tell each index tell the content when they are put together. -/
  whole : ∀ pick : Nat → Bytes, (∀ i < u.chunkCount a, ChunkSent record a.bucket (pick i) ∧
      chunkField (pick i) "chunk_index" = some (.nat i)) →
    ((List.range (u.chunkCount a)).flatMap fun i => chunkBytes (pick i)) = u.content

/-! ### Successful uploads -/

section Success

variable {J : Interface} {client : StorageClient J} {env : Environment J σ} {w : World J σ}
  {u : Upload} {c : UploadConfig}

/-- An upload whose index gives **no answer** comes to no end. -/
theorem run_of_silence (c : UploadConfig) (steps : Nat)
    (silent : ((client (.allocate u.allocationArgs)).run env w).2 = none) :
    (u.run client env steps c w).2 = none := by
  rcases asked : (client (.allocate u.allocationArgs)).run env w with ⟨w₀, answer⟩
  rw [asked] at silent
  obtain rfl : answer = none := silent
  have ran : (u.allocate.run.through client).run env w = (w₀, none) := by
    rw [through_allocate, Workflow.run_bind, asked]
  rw [run, ran]

/-- The acts of an upload that has **succeeded**: it asks for a place, remarks on it, stores its chunks
side by side, and remarks on that. -/
structure Success (u : Upload) (client : StorageClient J) (env : Environment J σ) (c : UploadConfig)
    (w w' : World J σ) (a : Allocation) (asking acts : List (Act J)) : Prop where
  /-- The place can take the file. -/
  fits : u.FitsIn a
  /-- The acts take the one world to the other. -/
  passage : Passage env w w' acts
  /-- The request for a place is answered with the place. -/
  asked : ∃ s, Course 0 (client (.allocate u.allocationArgs)) w.now asking
    (.done (.ok (.success a))) s
  /-- The chunks of the plan succeed together, and nothing else is done but remarks. -/
  parts : ∃ plan remarks trace closing w₁, ∃ pool : Pool J σ (Except UploadFailure Unit),
    u.planFor a = .ok plan ∧ acts = asking ++ remarks ++ trace ++ closing ∧
    (∀ act ∈ remarks ++ closing, act.IsRemark) ∧
    pool.Explained env (u.chunkWorkflows client c plan) w₁ trace ∧
    chunksOutcome plan.chunks.length pool.ended = some (.ok ())

/-- An upload that succeeds has done what leads to its success. -/
theorem success_of_run (short : u.content.length < 9223372036854775808) (steps : Nat)
    {file : UploadedFile} (success : (u.run client env steps c w).2 = some (.ok file)) :
    ∃ a asking acts, file = fileIn a ∧
      u.Success client env c w (u.run client env steps c w).1 a asking acts := by
  obtain ⟨asking, passage, course⟩ := Workflow.run_course env w (client (.allocate u.allocationArgs))
  rcases asked : (client (.allocate u.allocationArgs)).run env w with ⟨w₀, answer⟩
  rw [asked] at passage course
  cases answer with
  | none =>
    have silent := run_of_silence c steps (show ((client (.allocate u.allocationArgs)).run env w).2
      = none by rw [asked])
    exact nomatch silent.symm.trans success
  | some answer =>
    cases place : u.placeFor answer with
    | error failure =>
      obtain ⟨_, failed, _⟩ := run_of_refusal c steps asked place
      exact nomatch failed.symm.trans success
    | ok placed =>
      obtain ⟨plan, file'⟩ := placed
      obtain ⟨a, rfl, planned, rfl⟩ := placeFor_eq_ok_iff_planFor.mp place
      obtain ⟨remarks, w₁, trace, pool, closing, before, remarked, explained, after, closed, outcome⟩ :=
        run_of_place c steps asked place
      rw [success] at outcome
      obtain ⟨result, chunks, e⟩ := Option.map_eq_some_iff.mp outcome.symm
      cases result with
      | error failure => exact nomatch e
      | ok _ =>
        refine ⟨a, asking, asking ++ remarks ++ trace ++ closing, (Except.ok.inj e).symm,
          (exists_planFor_iff short).mp ⟨plan, planned⟩, ?_, ⟨w₀.now, course⟩,
          plan, remarks, trace, closing, w₁, pool, planned, rfl, ?_, explained, chunks⟩
        · exact ((passage.trans before).trans explained.passage).trans after
        · exact List.forall_mem_append.mpr ⟨remarked, closed⟩

end Success

/-! ### Chunks through an agent -/

section Agents

open PlatformRequest (Queries Serves)

variable {agent : Agent} {index bucket : CanisterId} {args : ChunkArgs} {left attempt id t v : Nat}
  {acts : List (Act platform)} {q : Workflow platform (Except UploadFailure Unit)}

/-- The attempts at a chunk submit nothing but the chunk, and make no query. -/
theorem within_of_tryChunk
    (h : Course id ((tryChunk bucket args left attempt).run.through (StorageClient.through agent index))
      t acts q v) :
    ∀ act ∈ acts, act.deed.Within (Serves (args.call bucket) agent.config.layout) fun _ => True := by
  refine always_tryChunk (P := fun acts => ∀ act ∈ acts, act.deed.Within _ _) ?_ ?_ ?_ ?_ left
    attempt _ _ _ _ h
  · exact List.forall_mem_nil _
  · exact fun as bs front after => List.forall_mem_append.mpr ⟨front, after⟩
  · exact fun t e => List.forall_mem_singleton.mpr trivial
  · exact fun t acts q v course => (confined_update agent (args.call bucket) _).of_course course

/-- They fetch the root key that they make known. -/
theorem keysFetched_of_tryChunk
    (h : Course id ((tryChunk bucket args left attempt).run.through (StorageClient.through agent index))
      t acts q v) :
    KeysFetched acts := by
  refine always_tryChunk (P := KeysFetched) .nil .append ?_ ?_ left attempt _ _ _ _ h
  · exact fun t e => .of_unpublished (List.forall_mem_singleton.mpr fun key => nofun)
  · exact keysFetched_update agent (args.call bucket) _

/-- A call that stores a chunk and is answered as stored was submitted, with octets whose request is
backed by a reply that says so. -/
theorem backed_of_store {reply : ChunkReply}
    (h : Course id (agent.update (args.call bucket) (.pure ChunkReply.ofValue)) t acts
      (.done (.ok reply)) v) (stored : reply.isStored = true) :
    ∃ arg request bs w, (args.call bucket).encode agent.config.layout = .ok arg ∧
      (∃ number, Did acts (.kept (.asked (I := platform) number
        (.update bucket "upload_chunk_v2_msgpack" arg)))) ∧
      Backed acts (args.call bucket) arg request (.replied bs) ∧
      ChunkReply.schema.decode bs = .ok w ∧
      (w = .variant "Success" none ∨ w = .variant "ChunkAlreadyExists" none) := by
  obtain ⟨outcome, reported, source⟩ := Course.of_update h
  obtain rfl := eq_ok_of_mapError_eq_ok reported.symm
  generalize made : Except.ok (ε := CallFailure) reply = out at source
  cases source with
  | failure _ | unexpected _ _ => exact nomatch made
  | status _ _ _ => exact nomatch made
  | @reply arg request bs w encoded backed decoded =>
    refine ⟨arg, request, bs, w, encoded, ?_, backed, decoded, ?_⟩
    · obtain ⟨as, cs, answer, certificate, rfl, ⟨number, did⟩, _⟩ := backed
      exact ⟨number, h.asked_of_answered did.left⟩
    · exact ChunkReply.eq_of_isStored made.symm stored (Schema.check_eq_none_of_decode decoded)

end Agents

/-! ### Successful uploads through an agent -/

section Runs

open PlatformRequest (Queries Serves)

variable {agent : Agent} {index : CanisterId} {env : Environment platform σ}
  {w w' : World platform σ} {u : Upload} {c : UploadConfig} {a : Allocation}
  {asking acts : List (Act platform)}

namespace Success

/-- An act of a successful upload belongs to asking for the place, is a remark, or belongs to the
attempts at one of the chunks. -/
theorem cases_act (h : u.Success (.through agent index) env c w w' a asking acts)
    (short : u.content.length < 9223372036854775808) {act : Act platform} (mem : act ∈ acts) :
    act ∈ asking ∨ act.IsRemark ∨ ∃ i < u.chunkCount a, ∃ tried since r t, act ∈ tried ∧
      Course act.caller ((tryChunk a.bucket (u.argsAt c a i) (c.attempts - 1) 1).run.through
        (StorageClient.through agent index)) since tried r t := by
  obtain ⟨plan, remarks, trace, closing, w₁, pool, planned, rfl, remarked, explained, _⟩ := h.parts
  rw [List.forall_mem_append] at remarked
  rcases List.mem_append.mp mem with mem | mem
  · rcases List.mem_append.mp mem with mem | mem
    · rcases List.mem_append.mp mem with mem | mem
      · exact .inl mem
      · exact .inr (.inl (remarked.1 act mem))
    · have mine : act ∈ own act.caller trace := List.mem_filter.mpr ⟨mem, decide_eq_true rfl⟩
      obtain ⟨i, below, since, more, r, t, course⟩ :=
        course_of_chunk short planned explained (List.ne_nil_of_mem mine)
      exact .inr (.inr ⟨i, below, _, since, r, t, List.mem_append_left more mine, course⟩)
  · exact .inr (.inl (remarked.2 act mem))

/-- What a successful upload asks for is its query for a place, or serves one of its chunks. -/
theorem within (h : u.Success (.through agent index) env c w w' a asking acts)
    (short : u.content.length < 9223372036854775808) {act : Act platform} (mem : act ∈ acts) :
    act.deed.Within (fun r => Queries (u.allocationArgs.call index) agent.config.layout r ∨
      ∃ i < u.chunkCount a, Serves ((u.argsAt c a i).call a.bucket) agent.config.layout r)
      fun _ => True := by
  rcases h.cases_act short mem with here | ⟨e, said⟩ |
    ⟨i, below, tried, since, r, t, here, course⟩
  · obtain ⟨s, course⟩ := h.asked
    have confined := (confined_query agent (u.allocationArgs.call index) _).of_course course act here
    exact confined.mono (fun _ => .inl) fun _ => False.elim
  · rw [said]
    trivial
  · have within := within_of_tryChunk course act here
    exact within.mono (fun _ serves => .inr ⟨i, below, serves⟩) fun _ => id

/-- A successful upload fetches the root key that it makes known. -/
theorem keysRecorded (h : u.Success (.through agent index) env c w w' a asking acts)
    (short : u.content.length < 9223372036854775808) : KeysRecorded acts := by
  obtain ⟨plan, remarks, trace, closing, w₁, pool, planned, rfl, remarked, explained, _⟩ := h.parts
  rw [List.forall_mem_append] at remarked
  -- Neither asking for the place nor remarking makes a key known.
  have silent {as : List (Act platform)} {id : Nat} (all : ∀ act ∈ as, act.IsRemark) :
      KeysFetched (own id as) := by
    refine .of_unpublished fun act mem key published => ?_
    obtain ⟨e, said⟩ := all act (List.mem_filter.mp mem).1
    exact nomatch said.symm.trans published
  refine keysRecorded_of_own fun id => ?_
  rw [own_append, own_append, own_append]
  refine .append _ _ (.append _ _ (.append _ _ ?_ (silent remarked.1)) ?_) (silent remarked.2)
  · refine .of_unpublished fun act mem key published => ?_
    obtain ⟨s, course⟩ := h.asked
    have confined := (confined_query agent (u.allocationArgs.call index) _).of_course course act
      (List.mem_filter.mp mem).1
    rw [published] at confined
    exact confined
  · by_cases idle : own id trace = []
    · rw [idle]
      exact .nil
    · obtain ⟨i, _, since, more, r, t, course⟩ := course_of_chunk short planned explained idle
      exact (keysFetched_of_tryChunk course).left

/-- **The index gave the place.** -/
theorem given (h : u.Success (.through agent index) env c w w' a asking acts)
    (short : u.content.length < 9223372036854775808) : Given (kept acts) index a := by
  obtain ⟨s, course⟩ := h.asked
  obtain ⟨arg, _, reply, v, mapped, ⟨number, heard⟩, decoded, read, only⟩ := Course.of_query course
  have among {deed : Deed platform} (did : Did asking deed) : Did acts deed := by
    obtain ⟨_, _, _, _, _, _, _, rfl, _⟩ := h.parts
    exact did.left.left.left
  obtain ⟨entry, mem, what⟩ := (among heard).exists_entry
  refine ⟨entry.caller, arg, reply, v, ⟨entry, mem, rfl, number, what⟩, decoded,
    Allocation.namedIn_of_ofValue read, fun caller target method arg' other recorded => ?_⟩
  obtain ⟨⟨time, _, _⟩, mem', rfl, number', rfl⟩ := recorded
  have there := mem_kept_iff.mp mem'
  -- No attempt at a chunk makes a query, so the other reply was heard when the place was asked for.
  rcases h.cases_act short there with here | ⟨e, said⟩ | ⟨i, _, tried, since, r, t, here, course⟩
  · exact only (fun _ v => ReplyReader.Final.ofValue v) other
      ⟨target, method, arg', number', _, here, rfl⟩
  · exact nomatch said
  · obtain ⟨act, made, deed⟩ := course.asked_of_answered ⟨_, here, rfl⟩
    have within := within_of_tryChunk course act made
    rw [deed] at within
    exact within.elim

/-- **Each chunk was sent and is backed** by a reply that it is stored. -/
theorem stored (h : u.Success (.through agent index) env c w w' a asking acts)
    (short : u.content.length < 9223372036854775808) {i : Nat} (below : i < u.chunkCount a) :
    ∃ arg request bs v, ((u.argsAt c a i).call a.bucket).encode agent.config.layout = .ok arg ∧
      ChunkSent (kept acts) a.bucket arg ∧
      Backed (own i acts) ((u.argsAt c a i).call a.bucket) arg request (.replied bs) ∧
      ChunkReply.schema.decode bs = .ok v ∧
      (v = .variant "Success" none ∨ v = .variant "ChunkAlreadyExists" none) := by
  obtain ⟨plan, remarks, trace, closing, w₁, pool, planned, rfl, remarked, explained, chunks⟩ :=
    h.parts
  obtain ⟨reply, as, bs, cs, s, s', split, stored, request⟩ :=
    course_of_stored short planned explained chunks below
  obtain ⟨arg, request, octets, v, encoded, ⟨number, asked⟩, backed, decoded, tells⟩ :=
    backed_of_store request stored
  refine ⟨arg, request, octets, v, encoded, ?_, ?_, decoded, tells⟩
  · have among : Did (own i trace) (.kept (.asked (I := platform) number
        (.update a.bucket "upload_chunk_v2_msgpack" arg))) := by
      rw [split]
      exact asked.right.left
    obtain ⟨entry, mem, what⟩ := among.of_own.right.left.exists_entry
    exact ⟨entry, mem, number, what⟩
  · rw [own_append, own_append, own_append, split]
    exact backed.right.left.right.left

end Success

/-- What is sent with a chunk is small when the upload has a short type and few accessors. -/
theorem small_argsAt (mimeType : (Bytes.ofText u.mimeType).length < 4294967296)
    (accessors : u.accessors.length < 4294967296) (c : UploadConfig) (a : Allocation) (i : Nat) :
    (u.argsAt c a i).Small := by
  refine ⟨mimeType, accessors, ?_⟩
  show (chunkAt u.content a.chunkSize.toNat i).length < _
  rw [chunkAt_eq, List.length_take]
  exact Nat.lt_of_le_of_lt (Nat.min_le_left _ _) a.chunkSize.toNat_lt

/-- **Uploads are intact**, whatever the transport and the verifier do: when an upload through an agent
reports a file, the index gave a place for it, the file is in this place, every chunk that was sent is
one of the content, for each index one that was sent is certified to be stored, and the octets that
were sent tell the content. -/
theorem run_intact (u : Upload) (agent : Agent) (index : CanisterId) (verify : Verifier)
    (transport : Environment platform σ) (state : σ) (steps : Nat) (c : UploadConfig)
    (short : u.content.length < 9223372036854775808)
    (mimeType : (Bytes.ofText u.mimeType).length < 4294967296)
    (accessors : u.accessors.length < 4294967296) :
    let ran := u.run (.through agent index) (verifiedBy verify transport) steps c
      (.start state agent.config.rootKey)
    ∀ file, ran.2 = some (.ok file) → ∃ a, Given ran.1.record index a ∧
      file.reference = ⟨a.fileId, a.bucket⟩ ∧
      u.Intact c verify agent.config.rootKey ran.1.record a := by
  intro ran file success
  obtain ⟨a, asking, acts, rfl, done⟩ := success_of_run short steps success
  have record : ran.1.record = kept acts := done.passage.record
  have small := small_argsAt mimeType accessors c a
  rw [record]
  have sent (target : CanisterId) (arg : Bytes) (h : ChunkSent (kept acts) target arg) :
      target = a.bucket ∧ ∃ i < u.chunkCount a, (u.argsAt c a i).Told arg := by
    obtain ⟨entry, mem, number, what⟩ := h
    have within := done.within short (mem_kept_iff.mp mem)
    rw [what] at within
    rcases within with query | ⟨i, below, rfl, _, encoded⟩
    · exact query.elim
    · exact ⟨rfl, i, below, ChunkArgs.told_of_encode (small i) encoded⟩
  refine ⟨a, done.given short, rfl, done.fits, sent, fun i below => ?_, fun pick picked => ?_⟩
  · obtain ⟨arg, request, bs, v, encoded, asked, backed, decoded, tells⟩ := done.stored short below
    have index := (ChunkArgs.told_of_encode (small i) encoded).index
    rw [toNat_index_argsAt done.fits below] at index
    have vouched := backed.vouched done.passage (done.keysRecorded short)
    rw [record] at vouched
    exact ⟨arg, asked, index, i, request, bs, v, vouched, decoded, tells⟩
  · refine flatMap_eq_content (c := c) done.fits fun i below => ?_
    -- The index that octets tell decides which chunk of the content they tell.
    obtain ⟨asked, index⟩ := picked i below
    obtain ⟨_, j, j_below, told⟩ := sent _ _ asked
    rw [told.index, toNat_index_argsAt done.fits j_below] at index
    obtain rfl := Value.nat.inj (Option.some.inj index)
    rw [chunkBytes, told.bytes]
    rfl

/-- An upload of three octets in two chunks, with a certificate for every call that says that it was
replied to with success. -/
theorem run_intact_three :
    let id : RequestId := ⟨List.replicate 32 7, rfl⟩
    let tree : HashTree := .labeled statusRoot (.labeled id.bytes
      (.fork (.labeled (Bytes.ofText "reply") (.leaf (167 :: Bytes.ofText "Success")))
        (.labeled (Bytes.ofText "status") (.leaf (Bytes.ofText "replied")))))
    let verify : Verifier := fun certificate key _ =>
      if certificate = [1] ∧ key = [9] then .ok tree else .error (.ofMessage "bad certificate")
    let place : Bytes :=
      129 :: 167 :: Bytes.ofText "Success" ++ [148, 196, 1, 7, 5, 2, 148, 10, 0, 3, 3]
    let transport : Environment platform Unit := fun _ _ r =>
      match r with
      | .query _ _ _ => ⟨(), 4, .ok (.replied place)⟩
      | .update _ _ _ => ⟨(), 5, .ok ⟨id, .certified [1]⟩⟩
      | .readState _ _ => ⟨(), 3, .ok [1]⟩
      | .rootKey => ⟨(), 2, .ok [9]⟩
      | .openCertificate _ _ _ => ⟨(), 0, .error (.ofMessage "no")⟩
    let agent : Agent := ⟨.brisk, .messages, 10⟩
    let index : CanisterId := ⟨[4], by decide⟩
    let u : Upload := ⟨[1, 2, 3], "text/plain", [], none, ⟨0, by decide⟩⟩
    let file := fileIn ⟨⟨[7], by decide⟩, 5, 2, ⟨10, 0, 3, 3⟩⟩
    let ran := u.run (.through agent index) (verifiedBy verify transport) 30 .standard
      (.start () agent.config.rootKey)
    (u.content.length < 9223372036854775808 ∧ (Bytes.ofText u.mimeType).length < 4294967296 ∧
      u.accessors.length < 4294967296 ∧ ran.2 = some (.ok file)) ∧
    ∃ a, Given ran.1.record index a ∧ file.reference = ⟨a.fileId, a.bucket⟩ ∧
      u.Intact .standard verify agent.config.rootKey ran.1.record a := by
  intro id tree verify place transport agent index u file ran
  have reported : ran.2.bind Except.toOption = some file := by decide +kernel
  have result : ran.2 = some (.ok file) := by
    generalize ran.2 = outcome at reported
    match outcome, reported with
    | some (.ok file), same => exact congrArg (some ∘ Except.ok) (Option.some.inj same)
  exact ⟨⟨by decide, by decide, by decide, result⟩,
    run_intact u agent index verify transport () 30 .standard (by decide) (by decide) (by decide) file
      result⟩

end Runs

end Upload

end CertifiedCalls
