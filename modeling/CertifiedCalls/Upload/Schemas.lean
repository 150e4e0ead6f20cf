import CertifiedCalls.Failure
import CertifiedCalls.Schema.Basic
import CertifiedCalls.Upload.Messages
import CertifiedCalls.Value.Display

/-! # Schemas of the storage
The schemas of the storage's messages, the values that carry requests, and the reading of replies
from values. A value that carries no reply is a response mismatch. -/

namespace CertifiedCalls

namespace Allowance

/-- The schema of an allowance. -/
def schema : Schema := .record [("byte_limit", .nat .bits64), ("bytes_used", .nat .bits64),
  ("bytes_used_after_upload", .nat .bits64), ("bytes_used_after_operation", .nat .bits64)]

end Allowance

/-- The schema of a request to the index. -/
def AllocationArgs.schema : Schema := .record [("file_hash", .bytes (some 32)),
  ("file_size", .nat .bits64), ("file_id_seed", .optional (.nat .bits128))]

/-- The schema of an answer of the index. -/
def AllocationReply.schema : Schema := .variant [
  ("Success", some (.record [("canister_id", .bytes none), ("file_id", .nat .bits64),
    ("chunk_size", .nat .bits32), ("projected_allowance", Allowance.schema)])),
  ("AllowanceExceeded", some Allowance.schema),
  ("UserNotFound", none),
  ("BucketUnavailable", none)]

/-- The schema of a chunk. -/
def ChunkArgs.schema : Schema := .record [("accessors", .array (.bytes none)),
  ("chunk_index", .nat .bits32), ("file_id", .nat .bits64), ("hash", .bytes (some 32)),
  ("mime_type", .text), ("total_size", .nat .bits64), ("bytes", .bytes none),
  ("chunk_size", .nat .bits32), ("expiry", .optional (.nat .bits64))]

/-- The schema of an answer of a bucket. -/
def ChunkReply.schema : Schema := .variant [
  ("Success", none),
  ("AllowanceExceeded", some Allowance.schema),
  ("FileAlreadyExists", none),
  ("FileTooBig", some (.nat .bits64)),
  ("FileExpired", none),
  ("ChunkAlreadyExists", none),
  ("ChunkIndexTooHigh", none),
  ("ChunkSizeMismatch", some (.record [("expected_chunk_size", .nat .bits32),
    ("actual_chunk_size", .nat .bits32)])),
  ("Full", none),
  ("HashMismatch", some (.record [("provided_hash", .bytes (some 32)),
    ("actual_hash", .bytes (some 32)), ("chunk_count", .nat .bits32),
    ("remaining_chunks", .nat .bits32)])),
  ("InvalidFileId", none),
  ("UserNotFound", none)]

/-- The value of a request to the index. -/
def AllocationArgs.toValue (a : AllocationArgs) : Value := .recordOf [
  ("file_hash", .bytes a.fileHash.bytes), ("file_size", .nat a.fileSize.toNat),
  ("file_id_seed", .optional (a.fileIdSeed.map fun seed => .nat seed.val))]

/-- The value of a chunk. -/
def ChunkArgs.toValue (a : ChunkArgs) : Value := .recordOf [
  ("accessors", .array (a.accessors.map fun id => .bytes id.bytes)),
  ("chunk_index", .nat a.index.toNat), ("file_id", .nat a.fileId.toNat),
  ("hash", .bytes a.hash.bytes), ("mime_type", .text a.mimeType),
  ("total_size", .nat a.totalSize.toNat), ("bytes", .bytes a.bytes),
  ("chunk_size", .nat a.chunkSize.toNat),
  ("expiry", .optional (a.expiry.map fun ms => .nat ms.toNat))]

/-! ## Reading replies -/

/-- A **reply** read from a value, or the response mismatch that it is. -/
abbrev ReplyReader (α : Type) := Except CallFailure α

namespace ReplyReader

/-- The thing, or a mismatch where it is missing. -/
def demand {α : Type} (path expected found : String) (thing : Option α) : ReplyReader α :=
  thing.elim (.error (.responseMismatch path expected found)) .ok

/-- The tag and the payload of a reply. -/
def variant (v : Value) : ReplyReader (String × Option Value) :=
  demand "$" "variant" v.toText v.variant?

/-- The mismatch of a reply whose tag is not known. -/
def unknownTag {α : Type} (tag : String) : ReplyReader α :=
  .error (.responseMismatch "$" "known variant" tag)

/-- The payload of a tag. -/
def payload (tag : String) (found : Option Value) : ReplyReader Value :=
  demand ("$::" ++ tag) "payload" "absent" found

/-- The field of a record. -/
def field (record : Value) (name : String) : ReplyReader Value :=
  demand ("$." ++ name) "field" "absent" (record.get? name)

/-- The byte string in a field. -/
def bytes (record : Value) (name : String) : ReplyReader Bytes := do
  demand ("$." ++ name) "bytes" "other" (← field record name).bytes?

/-- The hash in a field. -/
def hash (record : Value) (name : String) : ReplyReader FileHash := do
  demand ("$." ++ name) "bytes[32]" "other length" (FileHash.ofBytes? (← bytes record name))

/-- The number of 64 bits that a value is. -/
def word64? (v : Value) : Option UInt64 :=
  (v.nat?.filter (· < 18446744073709551616)).map UInt64.ofNat

/-- The number of 32 bits that a value is. -/
def word32? (v : Value) : Option UInt32 := (v.nat?.filter (· < 4294967296)).map UInt32.ofNat

/-- The number of 64 bits in a field. -/
def word64 (record : Value) (name : String) : ReplyReader UInt64 := do
  demand ("$." ++ name) "nat64" "other" (word64? (← field record name))

/-- The number of 32 bits in a field. -/
def word32 (record : Value) (name : String) : ReplyReader UInt32 := do
  demand ("$." ++ name) "nat32" "other" (word32? (← field record name))

/-- The allowance that a record holds. -/
def allowance (record : Value) : ReplyReader Allowance := do
  return {
    byteLimit := ← word64 record "byte_limit"
    bytesUsed := ← word64 record "bytes_used"
    bytesUsedAfterUpload := ← word64 record "bytes_used_after_upload"
    bytesUsedAfterOperation := ← word64 record "bytes_used_after_operation" }

/-- The canister of an allocation. -/
def bucket (record : Value) : ReplyReader CanisterId := do
  match CanisterId.ofBytes (← bytes record "canister_id") with
  | .ok id => return id
  | .error e => throw (.responseMismatch "$::Success.canister_id" "principal" e.message)

/-- The allocation that a record holds. -/
def allocation (record : Value) : ReplyReader Allocation := do
  return {
    bucket := ← bucket record
    fileId := ← word64 record "file_id"
    chunkSize := ← word32 record "chunk_size"
    allowance := ← allowance (← field record "projected_allowance") }

end ReplyReader

open ReplyReader

/-- The answer of the index that a value carries. -/
def AllocationReply.ofValue (v : Value) : ReplyReader AllocationReply := do
  let (tag, found) ← variant v
  match tag with
  | "Success" => return .success (← allocation (← payload tag found))
  | "AllowanceExceeded" => return .allowanceExceeded (← allowance (← payload tag found))
  | "UserNotFound" => return .userNotFound
  | "BucketUnavailable" => return .bucketUnavailable
  | other => unknownTag other

/-- The answer of a bucket that a value carries. -/
def ChunkReply.ofValue (v : Value) : ReplyReader ChunkReply := do
  let (tag, found) ← variant v
  match tag with
  | "Success" => return .success
  | "AllowanceExceeded" => return .allowanceExceeded (← allowance (← payload tag found))
  | "FileAlreadyExists" => return .fileAlreadyExists
  | "FileTooBig" =>
    return .fileTooBig (← demand "$::FileTooBig" "nat64" "other" (word64? (← payload tag found)))
  | "FileExpired" => return .fileExpired
  | "ChunkAlreadyExists" => return .chunkAlreadyExists
  | "ChunkIndexTooHigh" => return .chunkIndexTooHigh
  | "ChunkSizeMismatch" => do
    let p ← payload tag found
    return .chunkSizeMismatch (← word32 p "expected_chunk_size") (← word32 p "actual_chunk_size")
  | "Full" => return .full
  | "HashMismatch" => do
    let p ← payload tag found
    return .hashMismatch (← hash p "provided_hash") (← hash p "actual_hash")
      (← word32 p "chunk_count") (← word32 p "remaining_chunks")
  | "InvalidFileId" => return .invalidFileId
  | "UserNotFound" => return .userNotFound
  | other => unknownTag other

end CertifiedCalls
