import CertifiedCalls.Upload.Messages
import CertifiedCalls.Upload.Partition

/-! # Upload plans
A **plan** says where a file goes and in how many chunks. Chunks have a size, and 32 bits count as many
as it takes to cover the file, so none of their ranges overflows (`UploadPlan.partition_eq_ok`). -/

namespace CertifiedCalls

/-- An **upload plan**. -/
structure UploadPlan where
  /-- The hash of the file. -/
  contentHash : FileHash
  /-- The size of the file. -/
  totalSize : UInt64
  /-- The size of chunks. -/
  chunkSize : UInt32
  /-- How many chunks there are. -/
  chunkCount : UInt32
  /-- The bucket. -/
  destination : CanisterId
  /-- The identifier of the file in the bucket. -/
  fileId : UInt64
  /-- Chunks have a size. -/
  sized : chunkSize ≠ 0
  /-- There are as many as it takes to cover the file. -/
  counted : rangeCount totalSize.toNat chunkSize.toNat = chunkCount.toNat
deriving DecidableEq

/-- Why there is no plan. -/
inductive PlanFault where
  /-- Chunks of size zero. -/
  | zeroChunkSize
  /-- More chunks than 32 bits count. -/
  | tooManyChunks (totalSize : UInt64) (chunkSize : UInt32)
deriving DecidableEq, Repr

/-- The wording of a fault. -/
def PlanFault.message : PlanFault → String
  | .zeroChunkSize => "allocator returned a chunk size of zero"
  | .tooManyChunks totalSize chunkSize =>
    toString totalSize ++ " bytes in chunks of " ++ toString chunkSize
      ++ " exceeds the chunk index range"

namespace UploadPlan

/-- The plan for a file of a size in an allocated place. -/
def make (contentHash : FileHash) (totalSize : UInt64) (chunkSize : UInt32)
    (destination : CanisterId) (fileId : UInt64) : Except PlanFault UploadPlan :=
  let count := rangeCount totalSize.toNat chunkSize.toNat
  if zero : chunkSize = 0 then .error .zeroChunkSize
  else if few : count < 4294967296 then
    .ok ⟨contentHash, totalSize, chunkSize, .ofNat count, destination, fileId, zero,
      (UInt32.toNat_ofNat_of_lt' few).symm⟩
  else .error (.tooManyChunks totalSize chunkSize)

section Chunks

variable (p : UploadPlan)

/-- The size of chunks is a positive number. -/
theorem chunkSize_pos : 0 < p.chunkSize.toNat :=
  Nat.pos_of_ne_zero fun zero => p.sized (UInt32.toNat_inj.mp zero)

/-- As many chunks as 32 bits count, each of a size that has 32 bits, end within 64 bits. -/
theorem rangeCount_mul_lt :
    rangeCount p.totalSize.toNat p.chunkSize.toNat * p.chunkSize.toNat < 18446744073709551616 := by
  have size : p.chunkSize.toNat ≤ 4294967295 := Nat.le_of_lt_succ p.chunkSize.toNat_lt
  have count : p.chunkCount.toNat ≤ 4294967295 := Nat.le_of_lt_succ p.chunkCount.toNat_lt
  rw [p.counted]
  calc p.chunkCount.toNat * p.chunkSize.toNat
      ≤ 4294967295 * 4294967295 := Nat.mul_le_mul count size
    _ < 18446744073709551616 := by decide

/-- **No range of a plan overflows.** -/
theorem partition_eq_ok : partition p.totalSize p.chunkSize.toUInt64 =
    .ok (ByteRange.firsts p.totalSize p.chunkSize.toUInt64 p.chunkCount.toNat) := by
  have size : p.chunkSize.toUInt64.toNat = p.chunkSize.toNat := UInt32.toNat_toUInt64 _
  have pos : p.chunkSize.toUInt64 ≠ 0 := fun zero =>
    Nat.ne_of_gt p.chunkSize_pos (size ▸ congrArg UInt64.toNat zero)
  rw [CertifiedCalls.partition_eq_ok pos (by rw [size]; exact p.rangeCount_mul_lt), size, p.counted]

/-- The ranges of the chunks. -/
def ranges : List ByteRange :=
  match found : partition p.totalSize p.chunkSize.toUInt64 with
  | .ok ranges => ranges
  | .error _ => nomatch p.partition_eq_ok.symm.trans found

/-- They are those of the partition. -/
theorem partition_eq_ranges : partition p.totalSize p.chunkSize.toUInt64 = .ok p.ranges := by
  unfold ranges
  split
  · assumption
  · rename_i found
    exact nomatch p.partition_eq_ok.symm.trans found

/-- The index and the range of every chunk, in order. -/
def chunks : List (UInt32 × ByteRange) :=
  p.ranges.zipIdx.map fun (range, i) => (UInt32.ofNat i, range)

end Chunks

/-- A plan as it is shown to developers. -/
def debugText (p : UploadPlan) : String :=
  Text.braced "UploadPlan" [("content_hash", p.contentHash.debugText),
    ("total_size", toString p.totalSize), ("chunk_size", toString p.chunkSize),
    ("chunk_count", toString p.chunkCount), ("destination", p.destination.debugText),
    ("file_id", toString p.fileId)]

end UploadPlan

end CertifiedCalls
