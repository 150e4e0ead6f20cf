import CertifiedCalls.Config.Upload
import CertifiedCalls.Upload.Failure
import CertifiedCalls.Workflow.Basic

/-! # Uploading to a storage
An upload asks the index for a place, makes a plan and sends every chunk, each tried again at once
until it is stored or its attempts are used up. Requests go to a **storage**, whatever stands behind
it. -/

namespace CertifiedCalls

/-- A request to a **storage**. -/
inductive StorageRequest where
  /-- For a place. -/
  | allocate (args : AllocationArgs)
  /-- To store a chunk in a bucket. -/
  | store (bucket : CanisterId) (args : ChunkArgs)
deriving DecidableEq

/-- What a request to a storage is answered with, if the call does not fail. -/
def StorageRequest.Result : StorageRequest → Type
  | .allocate _ => AllocationReply
  | .store _ _ => ChunkReply

/-- The interface of a **storage**. -/
abbrev storage : Interface where
  Request := StorageRequest
  Answer r := Except FailedCall r.Result

/-- Makes a request to the storage. -/
def StorageRequest.ask (r : StorageRequest) : Workflow storage (Except FailedCall r.Result) :=
  Workflow.ask (I := storage) r

/-- A file to **upload**. -/
structure Upload where
  /-- The content. -/
  content : Bytes
  /-- The type of the content. -/
  mimeType : String
  /-- Who may read the file. -/
  accessors : List CanisterId
  /-- When the file expires, in milliseconds. -/
  expiry : Option UInt64
  /-- What the identifier of the file is derived from. -/
  seed : Fin Value.natBound

/-- A stretch of an upload, which may fail. -/
abbrev UploadStep (α : Type) := ExceptT UploadFailure (Workflow storage) α

/-- A stretch of an upload that cannot fail. -/
def UploadStep.of {α : Type} (w : Workflow storage α) : UploadStep α := ExceptT.lift w

namespace Upload

/-- The hash of the file. -/
def hash (u : Upload) : FileHash := .of u.content

/-- The size of the file. -/
def size (u : Upload) : UInt64 := UInt64.ofNat u.content.length

/-- What the index is asked with. -/
def allocationArgs (u : Upload) : AllocationArgs := ⟨u.hash, u.size, some u.seed⟩

/-- The event of a refused allocation. -/
def refusedEvent (u : Upload) (reply : AllocationReply) : Event :=
  ⟨.warn, "[oc-02] Allocation refused",
    [("hash", u.hash.toText), ("size", toString u.content.length), ("response", reply.tag)]⟩

/-- The event of an allocation. -/
def allocatedEvent (p : UploadPlan) : Event :=
  ⟨.debug, "[oc-02] Bucket allocated",
    [("bucket", p.destination.toText), ("file_id", toString p.fileId),
      ("chunk_size", toString p.chunkSize), ("chunk_count", toString p.chunkCount)]⟩

/-- The event of a chunk that had been stored before. -/
def storedEvent (index : UInt32) (attempt : Nat) : Event :=
  ⟨.debug, "[oc-02] Chunk already stored",
    [("chunk_index", toString index), ("attempt", toString attempt)]⟩

/-- The event of an attempt that failed. -/
def faultEvent (args : ChunkArgs) (attempt : Nat) (fault : ChunkFault) : Event :=
  ⟨.warn, "[oc-02] Chunk upload failed",
    [("file_id", toString args.fileId), ("chunk_index", toString args.index),
      ("attempt", toString attempt), ("failure", fault.message)]⟩

/-- The event of a complete upload. -/
def completeEvent (p : UploadPlan) : Event :=
  ⟨.info, "[oc-02] Upload complete",
    [("bucket", p.destination.toText), ("file_id", toString p.fileId),
      ("size", toString p.totalSize), ("chunks", toString p.chunkCount)]⟩

/-- The uploaded file in an allocated place. -/
def fileIn (a : Allocation) : UploadedFile :=
  ⟨⟨a.fileId, a.bucket⟩, a.allowance, BlobReference.pathRoot⟩

/-- The plan for the file in an allocated place. -/
def planFor (u : Upload) (a : Allocation) : Except UploadFailure UploadPlan :=
  (UploadPlan.make u.hash u.size a.chunkSize a.bucket a.fileId).mapError .invalidPlan

/-- Asks for a place and makes a plan. -/
def allocate (u : Upload) : UploadStep (UploadPlan × UploadedFile) := do
  let answer : Except FailedCall AllocationReply ←
    UploadStep.of (StorageRequest.ask (.allocate u.allocationArgs))
  match answer with
  | .error failure => throw (.allocation failure)
  | .ok (.success allocation) => do
    let plan ← u.planFor allocation
    UploadStep.of (Workflow.say (allocatedEvent plan))
    return (plan, fileIn allocation)
  | .ok refusal => do
    UploadStep.of (Workflow.say (u.refusedEvent refusal))
    throw (.allocationRefused refusal)

/-- What the bucket is sent with a chunk. -/
def chunkArgs (u : Upload) (c : UploadConfig) (p : UploadPlan) (chunk : UInt32 × ByteRange) :
    ChunkArgs where
  accessors := u.accessors
  index := chunk.1
  fileId := p.fileId
  hash := p.contentHash
  mimeType := u.mimeType
  totalSize := p.totalSize
  bytes := chunk.2.slice u.content
  chunkSize := p.chunkSize
  expiry := u.expiry.orElse fun _ => c.expiryMillis

/-- The fault of an answer that does not say that the chunk is stored. -/
def faultOf : Except FailedCall ChunkReply → ChunkFault
  | .ok reply => .reply reply
  | .error failure => .call failure

/-- Tries to store a chunk, with the attempt of the given number first and so many left after it. -/
def tryChunk (bucket : CanisterId) (args : ChunkArgs) : Nat → Nat → UploadStep Unit
  | left, attempt => do
    let answer : Except FailedCall ChunkReply ←
      UploadStep.of (StorageRequest.ask (.store bucket args))
    match answer with
    | .ok .success => return ()
    | .ok .chunkAlreadyExists => UploadStep.of (Workflow.say (storedEvent args.index attempt))
    | answer => do
      UploadStep.of (Workflow.say (faultEvent args attempt (faultOf answer)))
      match left with
      | 0 => throw (.chunkFailed args.index attempt (faultOf answer))
      | left + 1 => tryChunk bucket args left (attempt + 1)

/-- Stores a chunk. -/
def storeChunk (u : Upload) (c : UploadConfig) (p : UploadPlan) (chunk : UInt32 × ByteRange) :
    UploadStep Unit :=
  tryChunk p.destination (u.chunkArgs c p chunk) (c.attempts - 1) 1

end Upload

end CertifiedCalls
