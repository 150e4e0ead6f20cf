import CertifiedCalls.Simulation.Rules
import CertifiedCalls.Time.Duration
import CertifiedCalls.Upload.Client

/-! # Simulated storages
A storage whose index answers every request alike, and whose buckets answer chunks by rules on the
index of the chunk and the number of the attempt at it; and rules for a platform in memory that tell
the storage's calls apart. -/

namespace CertifiedCalls.Simulation

/-- The failure of a simulated call. -/
def failedCall (target : CanisterId) (method message : String) : FailedCall :=
  ⟨target, method, "", .transientOf message⟩

/-- The canister of a simulated index. -/
def indexId : CanisterId := ⟨[0, 0, 0, 0, 0, 0, 0, 9, 1, 1], by decide⟩

/-- The answer of an index that gives the same place to every file. -/
def allocating (bucket : CanisterId) (fileId : UInt64) (chunkSize : UInt32) : AllocationReply :=
  .success ⟨bucket, fileId, chunkSize, ⟨1073741824, 0, 0, 0⟩⟩

/-- What happens to a chunk: how long it takes, and the answer or the message of the failure. -/
structure ChunkCourse where
  /-- How long it takes. -/
  delay : Duration
  /-- The answer, or the message of the failure. -/
  answer : Except String ChunkReply

/-- A **rule** for chunks. -/
structure ChunkRule where
  /-- The index that it is for, if it is for one only. -/
  index : Option UInt32
  /-- The first attempt that it is for, if there is one. -/
  fromAttempt : Option Nat
  /-- The last attempt that it is for, if there is one. -/
  toAttempt : Option Nat
  /-- What happens. -/
  course : ChunkCourse

namespace ChunkRule

/-- Whether a rule is for an attempt at an index. -/
def fits (r : ChunkRule) (index : UInt32) (attempt : Nat) : Bool :=
  r.index.all (· == index) && r.fromAttempt.all (· ≤ attempt) && r.toAttempt.all (attempt ≤ ·)

/-- What the first rule that fits says; without one the chunk is stored at once. -/
def courseOf (rules : List ChunkRule) (index : UInt32) (attempt : Nat) : ChunkCourse :=
  ((rules.find? fun r => r.fits index attempt).map ChunkRule.course).getD ⟨.ofMillis 0, .ok .success⟩

/-- The rule that fails an index in its first attempts. -/
def failing (index : UInt32) (failures : Nat) : ChunkRule :=
  ⟨some index, none, some failures,
    ⟨.ofMillis 0, .error ("connection reset uploading chunk " ++ toString index)⟩⟩

end ChunkRule

/-- A **simulated storage**. -/
structure StorageRules where
  /-- The answer of the index, or the message of its failure. -/
  index : Except String AllocationReply
  /-- The rules for chunks. -/
  chunks : List ChunkRule

/-- The storage that follows rules. Its state are the indices of the chunks seen. -/
def StorageRules.environment (s : StorageRules) : Environment storage (List UInt32) :=
  fun seen _ r =>
    match r with
    | .allocate _ =>
      ⟨seen, 0, s.index.mapError (failedCall indexId "allocated_bucket_v2")⟩
    | .store bucket args =>
      let course := ChunkRule.courseOf s.chunks args.index (seen.count args.index + 1)
      ⟨args.index :: seen, course.delay.nanos,
        course.answer.mapError (failedCall bucket "upload_chunk_v2")⟩

/-- The index of the chunk that an argument carries, if it carries one. -/
def chunkIndex? (arg : Bytes) : Option Nat :=
  ((ChunkArgs.schema.decode arg).toOption.bind fun v => v.get? "chunk_index").bind Value.nat?

namespace Rule

/-- The rule for requests for a place. -/
def forAllocation (kind : Option Kind) (answers : List Canned) : Rule :=
  ⟨fun seen => kind.all (· == seen.kind) && seen.method == wireMethodName "allocated_bucket_v2",
    answers⟩

/-- The rule for chunks, perhaps of one index only. -/
def forChunk (kind : Option Kind) (index : Option Nat) (answers : List Canned) : Rule :=
  ⟨fun seen => kind.all (· == seen.kind) && seen.method == wireMethodName "upload_chunk_v2"
    && index.all fun i => chunkIndex? seen.arg == some i, answers⟩

end Rule

end CertifiedCalls.Simulation
