import CertifiedCalls.Config.Agent
import CertifiedCalls.Config.Upload
import CertifiedCalls.Json.Format
import CertifiedCalls.Upload.Messages

/-! # Stored settings
Settings and what is kept of uploads, read from JSON. A record is an object or an array of its fields
in order; a field without a fallback has to be present. -/

namespace CertifiedCalls

open Json (Item)

/-- The bound of octets. -/
def octetBound : Nat := 0x100

/-- The bound of half words. -/
def halfWordBound : Nat := 0x100000000

/-- A byte string as an array of its octets. -/
def Bytes.ofJson? (x : Item) : Option Bytes :=
  (x.list? (Item.nat? octetBound)).map fun octets => octets.map UInt8.ofNat

/-- A word. -/
def wordOfJson? (x : Item) : Option UInt64 := (x.nat? Json.wordBound).map UInt64.ofNat

/-- A half word. -/
def halfWordOfJson? (x : Item) : Option UInt32 := (x.nat? halfWordBound).map UInt32.ofNat

/-- What a field holds, which has to be present. -/
def required {α : Type} (read : Item → Option α) (field : Option Item) : Option α :=
  field.bind read

/-- What a field holds, or the fallback if it is absent. -/
def defaulted {α : Type} (fallback : α) (read : Item → Option α) : Option Item → Option α
  | some x => read x
  | none => some fallback

/-- A layout by its name, alone or as the name of an object's only member, which is null then. -/
def Layout.ofJson? : Item → Option Layout
  | .string name => name.bind Layout.ofName?
  | .object [(name, .null)] => name.bind Layout.ofName?
  | _ => none

/-- A way to poll. -/
def PollSettings.ofJson? (x : Item) : Option PollSettings := do
  match ← x.fields? ["initial_delay_ms", "multiplier", "max_delay_ms", "timeout_ms"] with
  | [initial, multiplier, most, timeout] =>
    return {
      initialDelayMs := ← required (Item.nat? Json.wordBound) initial
      multiplier := ← required Item.double? multiplier
      maxDelayMs := ← required (Item.nat? Json.wordBound) most
      timeoutMs := ← required (Item.nat? Json.wordBound) timeout }
  | _ => none

/-- Settings of an agent. The layout is by position unless it is given. -/
def AgentConfig.ofJson? (x : Item) : Option AgentConfig := do
  match ← x.fields? ["max_query_retries", "retry_base_delay_ms", "poll", "record_encoding",
    "root_key"] with
  | [retries, delay, poll, layout, rootKey] =>
    return {
      maxQueryRetries := ← required halfWordOfJson? retries
      retryBaseDelayMs := ← required (Item.nat? Json.wordBound) delay
      poll := ← required PollSettings.ofJson? poll
      layout := ← defaulted .positional Layout.ofJson? layout
      rootKey := ← defaulted none (Item.nullable? Bytes.ofJson?) rootKey }
  | _ => none

/-- Settings of uploads. -/
def UploadConfig.ofJson? (x : Item) : Option UploadConfig := do
  match ← x.fields? ["chunk_attempts", "max_concurrent_chunks", "expiry_millis"] with
  | [attempts, concurrent, expiry] =>
    return {
      chunkAttempts := ← required (Item.nat? halfWordBound) attempts
      maxConcurrentChunks := ← required (Item.nat? Json.wordBound) concurrent
      expiryMillis := ← defaulted none (Item.nullable? wordOfJson?) expiry }
  | _ => none

/-- A canister identifier by its text. -/
def CanisterId.ofJson? (x : Item) : Option CanisterId := do
  (CanisterId.ofText (← x.text?)).toOption

/-- A reference to a file. -/
def BlobReference.ofJson? (x : Item) : Option BlobReference := do
  match ← x.fields? ["file_id", "bucket"] with
  | [fileId, bucket] =>
    return ⟨← required wordOfJson? fileId, ← required CanisterId.ofJson? bucket⟩
  | _ => none

/-- A file hash as an array of its octets. -/
def FileHash.ofJson? (x : Item) : Option FileHash := do FileHash.ofBytes? (← Bytes.ofJson? x)

/-- An allowance. -/
def Allowance.ofJson? (x : Item) : Option Allowance := do
  match ← x.fields? ["byte_limit", "bytes_used", "bytes_used_after_upload",
    "bytes_used_after_operation"] with
  | [limit, used, afterUpload, afterOperation] =>
    return {
      byteLimit := ← required wordOfJson? limit
      bytesUsed := ← required wordOfJson? used
      bytesUsedAfterUpload := ← required wordOfJson? afterUpload
      bytesUsedAfterOperation := ← required wordOfJson? afterOperation }
  | _ => none

end CertifiedCalls
