import CertifiedCalls.Digest.Sha3

/-! # File hashes
A file is known by the SHA3-256 hash of its content. -/

namespace CertifiedCalls

/-- The **hash of a file**: thirty-two octets. -/
@[ext] structure FileHash where
  /-- The octets. -/
  bytes : Bytes
  /-- There are thirty-two of them. -/
  length_eq : bytes.length = 32

/-- Hashes are compared by their octets. -/
instance : DecidableEq FileHash := fun _ _ => decidable_of_decidable_of_iff FileHash.ext_iff.symm

namespace FileHash

/-- The hash of a content. -/
def of (content : Bytes) : FileHash := ⟨Sha3.hash content, Sha3.length_hash content⟩

/-- The hash with the given octets. -/
def ofBytes? (bs : Bytes) : Option FileHash := if h : bs.length = 32 then some ⟨bs, h⟩ else none

/-- The hexadecimal text of a hash. -/
def toText (h : FileHash) : String := h.bytes.toHex

/-- A hash as it is shown to developers: its first eight octets. -/
def debugText (h : FileHash) : String := "FileHash(" ++ Bytes.toHex (h.bytes.take 8) ++ ")"

end FileHash

end CertifiedCalls
