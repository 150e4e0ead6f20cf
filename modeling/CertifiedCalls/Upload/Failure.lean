import CertifiedCalls.Failure
import CertifiedCalls.Upload.Plan

/-! # Failures of uploads
An upload gives a reference to the whole file or fails for one of these causes. -/

namespace CertifiedCalls

/-- Why a chunk was not stored. -/
inductive ChunkFault where
  /-- The call failed. -/
  | call (failure : FailedCall)
  /-- The bucket answered that it did not store the chunk. -/
  | reply (answer : ChunkReply)
deriving DecidableEq

/-- The wording of a fault. -/
def ChunkFault.message : ChunkFault → String
  | .call failure => failure.message
  | .reply answer => answer.toText

/-- The cause of a failed upload. -/
inductive UploadFailure where
  /-- The call to the index failed. -/
  | allocation (failure : FailedCall)
  /-- The index gave no place. -/
  | allocationRefused (reply : AllocationReply)
  /-- There is no plan for the place that the index gave. -/
  | invalidPlan (fault : PlanFault)
  /-- A chunk was not stored in so many attempts. -/
  | chunkFailed (index : UInt32) (attempts : Nat) (last : ChunkFault)
deriving DecidableEq

namespace UploadFailure

/-- The reason that a failure gives, apart from failed calls. -/
def reason : UploadFailure → String
  | .allocation failure => failure.message
  | .allocationRefused reply => reply.debugText
  | .invalidPlan fault => fault.message
  | .chunkFailed _ _ last => last.message

/-- The wording of a failure. -/
def message : UploadFailure → String
  | .allocation failure => "Allocation call failed: " ++ failure.message
  | .allocationRefused reply => "Allocation refused: " ++ reply.debugText
  | .invalidPlan fault => "Invalid upload plan: " ++ fault.message
  | .chunkFailed index attempts last =>
    "Chunk " ++ toString index ++ " failed after " ++ toString attempts ++ " attempts: "
      ++ last.message

/-- The kind of the failed call to the index, if that is the cause. -/
def callKind : UploadFailure → Option FailureKind
  | .allocation failure => some failure.cause.kind
  | _ => none

end UploadFailure

end CertifiedCalls
