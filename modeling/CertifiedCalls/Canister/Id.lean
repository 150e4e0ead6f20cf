import CertifiedCalls.Canister.Base32
import CertifiedCalls.Digest.Crc32

/-! # Canister identifiers
A **canister identifier** is a byte string of at most twenty-nine octets. Its text is its checksum
and its octets in lower-case base 32, in groups of five. Texts are read in either case, and only in
the grouping in which they are written. -/

namespace CertifiedCalls

/-- The identifier of a **canister**, the target of calls. -/
structure CanisterId where
  /-- The octets. -/
  bytes : Bytes
  /-- There are at most twenty-nine of them. -/
  length_le : bytes.length ≤ 29
deriving DecidableEq

/-- Why something is no canister identifier. -/
inductive CanisterIdError where
  /-- There are too many octets. -/
  | tooLong (length : Nat)
  /-- The text is not base 32. -/
  | invalidEncoding
  /-- The text has no room for a checksum. -/
  | tooShort
  /-- The text writes too many octets. -/
  | textTooLong
  /-- The checksum is that of other octets. -/
  | checksumMismatch
  /-- The text is grouped in another way than this one. -/
  | notCanonical (expected : String)
deriving DecidableEq, Repr

/-- The wording of an identifier error. -/
def CanisterIdError.message : CanisterIdError → String
  | .tooLong n => "Principal too long: " ++ toString n ++ " bytes (max 29)"
  | .invalidEncoding => "Principal text is not valid base32"
  | .tooShort => "Principal text too short"
  | .textTooLong => "Principal text too long"
  | .checksumMismatch => "Principal checksum mismatch"
  | .notCanonical expected => "Principal text is not in canonical form, expected " ++ expected

/-- A list of characters in groups of five with dashes between them. -/
def dashed (cs : List Char) : List Char :=
  if _h : 5 < cs.length then cs.take 5 ++ '-' :: dashed (cs.drop 5) else cs
termination_by cs.length
decreasing_by
  simp only [List.length_drop]
  omega

namespace CanisterId

/-- The most octets an identifier has. -/
def maxLength : Nat := 29

/-- The management canister, whose identifier is empty. -/
def management : CanisterId := ⟨[], by decide⟩

/-- Whether an identifier is that of the management canister. -/
def isManagement (id : CanisterId) : Bool := id.bytes.isEmpty

/-- The identifier of given octets. -/
def ofBytes (bs : Bytes) : Except CanisterIdError CanisterId :=
  if h : bs.length ≤ 29 then .ok ⟨bs, h⟩ else .error (.tooLong bs.length)

/-- The checksum of octets, in four octets. -/
def checksum (bs : Bytes) : Bytes := Bytes.bigEndian 4 (Crc32.checksum bs).toNat

/-- The characters of the text of octets. -/
def textOf (bs : Bytes) : List Char :=
  dashed ((Base32.encode (checksum bs ++ bs)).map Char.toLower)

/-- The text of an identifier. -/
def toText (id : CanisterId) : String := String.ofList (textOf id.bytes)

/-- An identifier as it is shown to developers. -/
def debugText (id : CanisterId) : String := "CanisterId(" ++ id.toText ++ ")"

/-- The identifier that a text writes. -/
def ofText (s : String) : Except CanisterIdError CanisterId := do
  let digits := (s.toList.map Char.toUpper).filter (· ≠ '-')
  let bs ← (Base32.decode? digits).elim (throw .invalidEncoding) pure
  match bs.splitAt? 4 with
  | none => throw .tooShort
  | some (sum, body) =>
    if h : body.length ≤ 29 then
      if sum ≠ checksum body then throw .checksumMismatch
      let id : CanisterId := ⟨body, h⟩
      if s.toList.map Char.toLower ≠ textOf body then throw (.notCanonical id.toText)
      return id
    else throw .textTooLong

/-- Whether one identifier comes before another: the shorter first, then octet by octet. -/
def before (a b : CanisterId) : Bool :=
  a.bytes.length < b.bytes.length ||
    (a.bytes.length == b.bytes.length && a.bytes.before b.bytes)

/-- Puts an identifier into an increasing list, unless it is there already. -/
def insertInto (id : CanisterId) : List CanisterId → List CanisterId
  | [] => [id]
  | other :: rest =>
    if id.before other then id :: other :: rest
    else if id = other then other :: rest
    else other :: insertInto id rest

/-- The distinct identifiers of a list in increasing order. -/
def sortDistinct (ids : List CanisterId) : List CanisterId :=
  ids.foldl (fun sorted id => insertInto id sorted) []

/-- An identifier's octets are its own. -/
@[simp] theorem ofBytes_bytes (id : CanisterId) : ofBytes id.bytes = .ok id := by
  simp [ofBytes, id.length_le]

end CanisterId

end CertifiedCalls
