import CertifiedCalls.Bytes

/-! # Base 32
The encoding of RFC 4648 without padding: five bits a digit, from the alphabet `A` to `Z`, `2` to
`7`. A text is read only if some byte string is written that way: its length must be possible and
the bits left over at its end must be zero. -/

namespace CertifiedCalls.Base32

/-- The upper-case digit of a number below thirty-two. -/
def digit (n : Nat) : Char := if n < 26 then Char.ofNat (65 + n) else Char.ofNat (24 + n)

/-- The number of an upper-case digit. -/
def value? (c : Char) : Option Nat :=
  if 'A' ≤ c ∧ c ≤ 'Z' then some (c.toNat - 65)
  else if '2' ≤ c ∧ c ≤ '7' then some (c.toNat - 24)
  else none

/-- The last `count` digits of a number, most significant first. -/
def digits : Nat → Nat → List Char
  | 0, _ => []
  | count + 1, n => digits count (n / 32) ++ [digit (n % 32)]

/-- How many digits a block of so many octets takes. -/
def digitCount (octets : Nat) : Nat := (8 * octets + 4) / 5

/-- The digits of a block of at most five octets, the last one filled up with zero bits. -/
def encodeBlock (block : Bytes) : List Char :=
  let count := digitCount block.length
  digits count (block.toNat <<< (5 * count - 8 * block.length))

/-- The digits of a byte string. -/
def encode (bs : Bytes) : List Char := (bs.blocks 5).flatMap encodeBlock

/-- The number written by digits, most significant first. -/
def number? (cs : List Char) : Option Nat :=
  cs.foldlM (fun n c => (value? c).map (32 * n + ·)) 0

/-- The octets of at most eight digits: as many whole octets as they hold, when no more digits were
spent than needed and the bits left over are zero. -/
def decodeBlock? (cs : List Char) : Option Bytes := do
  let n ← number? cs
  let octets := 5 * cs.length / 8
  let spare := 5 * cs.length - 8 * octets
  if digitCount octets = cs.length ∧ n % (1 <<< spare) = 0 then
    some (Bytes.bigEndian octets (n >>> spare))
  else none

/-- The octets written by digits. -/
def decode? (cs : List Char) : Option Bytes :=
  if _h : cs = [] then some []
  else do
    let block ← decodeBlock? (cs.take 8)
    let rest ← decode? (cs.drop 8)
    return block ++ rest
termination_by cs.length
decreasing_by
  have := List.length_pos_iff.mpr _h
  simp only [List.length_drop]
  omega

end CertifiedCalls.Base32
