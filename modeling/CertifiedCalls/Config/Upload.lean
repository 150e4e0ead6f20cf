/-! # Settings of uploads
How often a chunk is tried, how many are under way at a time, and when files expire. -/

namespace CertifiedCalls

/-- The **settings of uploads**. -/
structure UploadConfig where
  /-- How often a chunk is tried. -/
  chunkAttempts : Nat
  /-- How many chunks are under way at a time. -/
  maxConcurrentChunks : Nat
  /-- When files expire, in milliseconds, unless an upload says otherwise. -/
  expiryMillis : Option UInt64
deriving DecidableEq, Repr

namespace UploadConfig

/-- The usual settings. -/
def standard : UploadConfig := ⟨5, 10, none⟩

/-- Settings with few chunks at a time. -/
def brisk : UploadConfig := { standard with maxConcurrentChunks := 4 }

/-- How often a chunk is tried, at least once. -/
def attempts (c : UploadConfig) : Nat := max c.chunkAttempts 1

/-- How many chunks are under way at a time, at least one. -/
def concurrency (c : UploadConfig) : Nat := max c.maxConcurrentChunks 1

end UploadConfig

end CertifiedCalls
