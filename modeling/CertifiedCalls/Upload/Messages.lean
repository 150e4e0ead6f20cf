import CertifiedCalls.Canister.Id
import CertifiedCalls.Text.Braced
import CertifiedCalls.Upload.FileHash
import CertifiedCalls.Value.Basic

/-! # Messages of the storage
What the storage index is asked for and answers, what a storage bucket is sent and answers, and how
these messages are shown. -/

namespace CertifiedCalls

/-- The **allowance** of a user before and after an upload, in octets. -/
structure Allowance where
  /-- What the user may store. -/
  byteLimit : UInt64
  /-- What is stored now. -/
  bytesUsed : UInt64
  /-- What is stored after the upload. -/
  bytesUsedAfterUpload : UInt64
  /-- What is stored after the whole operation. -/
  bytesUsedAfterOperation : UInt64
deriving DecidableEq, Repr

/-- An allowance as it is shown to developers. -/
def Allowance.debugText (a : Allowance) : String :=
  Text.braced "ProjectedAllowance" [("byte_limit", toString a.byteLimit),
    ("bytes_used", toString a.bytesUsed),
    ("bytes_used_after_upload", toString a.bytesUsedAfterUpload),
    ("bytes_used_after_operation", toString a.bytesUsedAfterOperation)]

/-- What the index is asked with. -/
structure AllocationArgs where
  /-- The hash of the file. -/
  fileHash : FileHash
  /-- The size of the file. -/
  fileSize : UInt64
  /-- What the identifier of the file is derived from. -/
  fileIdSeed : Option (Fin Value.natBound)
deriving DecidableEq

/-- A place for a file. -/
structure Allocation where
  /-- The bucket. -/
  bucket : CanisterId
  /-- The identifier of the file in the bucket. -/
  fileId : UInt64
  /-- The size of chunks. -/
  chunkSize : UInt32
  /-- The allowance after the upload. -/
  allowance : Allowance
deriving DecidableEq

/-- An allocation as it is shown to developers. -/
def Allocation.debugText (a : Allocation) : String :=
  Text.braced "AllocatedBucketSuccess" [("canister_id", a.bucket.debugText),
    ("file_id", toString a.fileId), ("chunk_size", toString a.chunkSize),
    ("projected_allowance", a.allowance.debugText)]

/-- The answer of the index. -/
inductive AllocationReply where
  /-- A place for the file. -/
  | success (allocation : Allocation)
  /-- The file would exceed the user's allowance. -/
  | allowanceExceeded (allowance : Allowance)
  /-- The index does not know the user. -/
  | userNotFound
  /-- No bucket can take the file. -/
  | bucketUnavailable
deriving DecidableEq

namespace AllocationReply

/-- The tag of an answer. -/
def tag : AllocationReply → String
  | .success _ => "Success"
  | .allowanceExceeded _ => "AllowanceExceeded"
  | .userNotFound => "UserNotFound"
  | .bucketUnavailable => "BucketUnavailable"

/-- An answer as it is shown to developers. -/
def debugText : AllocationReply → String
  | .success allocation => Text.bracketed "Success" allocation.debugText
  | .allowanceExceeded allowance => Text.bracketed "AllowanceExceeded" allowance.debugText
  | other => other.tag

end AllocationReply

/-- What a bucket is sent with a **chunk**. -/
structure ChunkArgs where
  /-- Who may read the file. -/
  accessors : List CanisterId
  /-- The index of the chunk, from zero. -/
  index : UInt32
  /-- The identifier of the file. -/
  fileId : UInt64
  /-- The hash of the file. -/
  hash : FileHash
  /-- The type of the content. -/
  mimeType : String
  /-- The size of the file. -/
  totalSize : UInt64
  /-- The octets of the chunk. -/
  bytes : Bytes
  /-- The size of chunks. -/
  chunkSize : UInt32
  /-- When the file expires, in milliseconds. -/
  expiry : Option UInt64
deriving DecidableEq

/-- What is sent with a chunk as it is shown to developers, without the octets. -/
def ChunkArgs.debugText (a : ChunkArgs) : String :=
  Text.inBraces "UploadChunkArgs" ([("file_id", toString a.fileId),
    ("chunk_index", toString a.index), ("bytes", "<" ++ toString a.bytes.length ++ " bytes>"),
    ("total_size", toString a.totalSize)].map Text.namedPart ++ [".."])

/-- The answer of a bucket. -/
inductive ChunkReply where
  /-- The chunk is stored. -/
  | success
  /-- The file would exceed the user's allowance. -/
  | allowanceExceeded (allowance : Allowance)
  /-- The file is complete already. -/
  | fileAlreadyExists
  /-- The file exceeds the limit of the bucket. -/
  | fileTooBig (limit : UInt64)
  /-- The file expired before it was complete. -/
  | fileExpired
  /-- The chunk has been stored before. -/
  | chunkAlreadyExists
  /-- The file has no chunk of this index. -/
  | chunkIndexTooHigh
  /-- The chunk has another size than was agreed. -/
  | chunkSizeMismatch (expected actual : UInt32)
  /-- The bucket is full. -/
  | full
  /-- Earlier chunks came with another hash. -/
  | hashMismatch (provided actual : FileHash) (chunkCount remaining : UInt32)
  /-- The bucket does not know the file. -/
  | invalidFileId
  /-- The bucket does not know the user. -/
  | userNotFound
deriving DecidableEq

namespace ChunkReply

/-- Whether the chunk is stored. -/
def isStored : ChunkReply → Bool
  | .success => true
  | .chunkAlreadyExists => true
  | _ => false

/-- The tag of an answer. -/
def tag : ChunkReply → String
  | .success => "Success"
  | .allowanceExceeded _ => "AllowanceExceeded"
  | .fileAlreadyExists => "FileAlreadyExists"
  | .fileTooBig _ => "FileTooBig"
  | .fileExpired => "FileExpired"
  | .chunkAlreadyExists => "ChunkAlreadyExists"
  | .chunkIndexTooHigh => "ChunkIndexTooHigh"
  | .chunkSizeMismatch _ _ => "ChunkSizeMismatch"
  | .full => "Full"
  | .hashMismatch _ _ _ _ => "HashMismatch"
  | .invalidFileId => "InvalidFileId"
  | .userNotFound => "UserNotFound"

/-- The answers that carry nothing but their tag. -/
def bare : List ChunkReply := [.success, .fileAlreadyExists, .fileExpired, .chunkAlreadyExists,
  .chunkIndexTooHigh, .full, .invalidFileId, .userNotFound]

/-- The text of an answer. -/
def toText : ChunkReply → String
  | .allowanceExceeded a =>
    "AllowanceExceeded (" ++ toString a.bytesUsedAfterUpload ++ " of " ++ toString a.byteLimit
      ++ " bytes)"
  | .fileTooBig limit => "FileTooBig (limit " ++ toString limit ++ ")"
  | .chunkSizeMismatch expected actual =>
    "ChunkSizeMismatch (expected " ++ toString expected ++ ", got " ++ toString actual ++ ")"
  | other => other.tag

/-- An answer as it is shown to developers. -/
def debugText : ChunkReply → String
  | .allowanceExceeded a => Text.bracketed "AllowanceExceeded" a.debugText
  | .fileTooBig limit => Text.bracketed "FileTooBig" (toString limit)
  | .chunkSizeMismatch expected actual =>
    Text.braced "ChunkSizeMismatch" [("expected_chunk_size", toString expected),
      ("actual_chunk_size", toString actual)]
  | .hashMismatch provided actual chunkCount remaining =>
    Text.braced "HashMismatch" [("provided_hash", provided.debugText),
      ("actual_hash", actual.debugText), ("chunk_count", toString chunkCount),
      ("remaining_chunks", toString remaining)]
  | other => other.tag

end ChunkReply

/-- Where an uploaded file is. -/
structure BlobReference where
  /-- The identifier of the file in the bucket. -/
  fileId : UInt64
  /-- The bucket. -/
  bucket : CanisterId
deriving DecidableEq

namespace BlobReference

/-- The path under which a bucket serves files. -/
def pathRoot : String := "/files/"

/-- The text of a reference. -/
def toText (r : BlobReference) : String := r.bucket.toText ++ pathRoot ++ toString r.fileId

/-- The public address of a file on a host. -/
def url (r : BlobReference) (host : String) : String :=
  "https://" ++ r.bucket.toText ++ ".raw." ++ host ++ pathRoot ++ toString r.fileId

/-- The JSON text of a reference. -/
def jsonText (r : BlobReference) : String :=
  "\x7b\"file_id\":" ++ toString r.fileId ++ ",\"bucket\":\"" ++ r.bucket.toText ++ "\"\x7d"

/-- A reference as it is shown to developers. -/
def debugText (r : BlobReference) : String :=
  Text.braced "BlobReference" [("file_id", toString r.fileId), ("bucket", r.bucket.debugText)]

end BlobReference

/-- An **uploaded file**. -/
structure UploadedFile where
  /-- Where it is. -/
  reference : BlobReference
  /-- The allowance that the index reported. -/
  allowance : Allowance
  /-- The path under which the bucket serves it. -/
  pathRoot : String
deriving DecidableEq

end CertifiedCalls
