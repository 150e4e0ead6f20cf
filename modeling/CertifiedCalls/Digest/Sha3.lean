import CertifiedCalls.Bytes

/-! # SHA3-256
The 256-bit hash function of FIPS 202: the sponge over the Keccak permutation with a rate of 136
octets. A state is a list of twenty-five lanes, the lane of column `x` and row `y` at `x + 5 * y`. -/

namespace CertifiedCalls.Sha3

/-- A **sponge state**: twenty-five lanes. -/
abbrev Lanes := List UInt64

/-- The lane at an index. -/
def Lanes.lane (s : Lanes) (i : Nat) : UInt64 := s.getD i 0

/-- The constants that the rounds add to the first lane. -/
def roundConstants : List UInt64 := [
  0x0000000000000001, 0x0000000000008082, 0x800000000000808A, 0x8000000080008000,
  0x000000000000808B, 0x0000000080000001, 0x8000000080008081, 0x8000000000008009,
  0x000000000000008A, 0x0000000000000088, 0x0000000080008009, 0x000000008000000A,
  0x000000008000808B, 0x800000000000008B, 0x8000000000008089, 0x8000000000008003,
  0x8000000000008002, 0x8000000000000080, 0x000000000000800A, 0x800000008000000A,
  0x8000000080008081, 0x8000000000008080, 0x0000000080000001, 0x8000000080008008]

/-- How far each lane is rotated. -/
def rotations : List UInt64 := [
  0, 1, 62, 28, 27, 36, 44, 6, 55, 20, 3, 10, 43, 25, 39, 41, 45, 15, 21, 8, 18, 2, 61, 56, 14]

/-- Rotation of a lane to the left. -/
def rotateLeft (x n : UInt64) : UInt64 := if n = 0 then x else (x <<< n) ||| (x >>> (64 - n))

/-- The step **θ**: every lane takes in the parities of two neighbouring columns. -/
def theta (s : Lanes) : Lanes :=
  let parity := (List.range 5).map fun x =>
    s.lane x ^^^ s.lane (x + 5) ^^^ s.lane (x + 10) ^^^ s.lane (x + 15) ^^^ s.lane (x + 20)
  let mix := (List.range 5).map fun x =>
    Lanes.lane parity ((x + 4) % 5) ^^^ rotateLeft (Lanes.lane parity ((x + 1) % 5)) 1
  (List.range 25).map fun i => s.lane i ^^^ Lanes.lane mix (i % 5)

/-- The steps **ρ** and **π**: every lane is rotated and moved. -/
def rhoPi (s : Lanes) : Lanes :=
  (List.range 25).map fun i =>
    let source := (i % 5 + 3 * (i / 5)) % 5 + 5 * (i % 5)
    rotateLeft (s.lane source) (Lanes.lane rotations source)

/-- The step **χ**: every lane takes in the next two of its row. -/
def chi (s : Lanes) : Lanes :=
  (List.range 25).map fun i =>
    let row := 5 * (i / 5)
    s.lane i ^^^ (~~~(s.lane (row + (i + 1) % 5)) &&& s.lane (row + (i + 2) % 5))

/-- The step **ι**: the first lane takes in the round's constant. -/
def iota (constant : UInt64) : Lanes → Lanes
  | [] => []
  | first :: rest => (first ^^^ constant) :: rest

/-- The twenty-four rounds of the permutation. -/
def permute (s : Lanes) : Lanes :=
  roundConstants.foldl (fun s constant => iota constant (chi (rhoPi (theta s)))) s

/-- The lanes of a block, least significant octet first. -/
def lanesOf (block : Bytes) : Lanes :=
  (block.blocks 8).map fun w => UInt64.ofNat (Bytes.toNat w.reverse)

/-- The state after taking in a block. -/
def absorb (s : Lanes) (block : Bytes) : Lanes :=
  let words := lanesOf block
  permute ((List.range 25).map fun i => s.lane i ^^^ words.lane i)

/-- The message followed by the suffix of the hash functions and zeros, the last octet closed by a
one bit. -/
def pad (message : Bytes) : Bytes :=
  match 136 - message.length % 136 with
  | 1 => message ++ [0x86]
  | missing => message ++ 0x06 :: List.replicate (missing - 2) 0 ++ [0x80]

/-- The **SHA3-256** hash of a message. -/
def hash (message : Bytes) : Bytes :=
  let s := (Bytes.blocks 136 (pad message)).foldl absorb (List.replicate 25 0)
  (List.range 4).flatMap fun i => (Bytes.bigEndian 8 (s.lane i).toNat).reverse

/-- A hash has thirty-two octets. -/
@[simp] theorem length_hash (message : Bytes) : (hash message).length = 32 := by
  simp [hash, List.range, List.range.loop]

end CertifiedCalls.Sha3
