import CertifiedCalls.Call.Query
import CertifiedCalls.Call.Update
import CertifiedCalls.Upload.Run
import CertifiedCalls.Upload.Schemas

/-! # Storage on canisters
The storage behind an agent: a place is asked for by a query to the index, and a chunk is stored by
an update of its bucket. -/

namespace CertifiedCalls

/-- The call that asks an index for a place. -/
def AllocationArgs.call (a : AllocationArgs) (index : CanisterId) : Call :=
  ⟨index, "allocated_bucket_v2", a.toValue, AllocationArgs.schema, AllocationReply.schema⟩

/-- The call that stores a chunk in a bucket. -/
def ChunkArgs.call (a : ChunkArgs) (bucket : CanisterId) : Call :=
  ⟨bucket, "upload_chunk_v2", a.toValue, ChunkArgs.schema, ChunkReply.schema⟩

/-- The storage of an index, through an agent. -/
def StorageClient.through (agent : Agent) (index : CanisterId) : StorageClient platform
  | .allocate args => agent.query (args.call index) (.pure AllocationReply.ofValue)
  | .store bucket args => agent.update (args.call bucket) (.pure ChunkReply.ofValue)

end CertifiedCalls
