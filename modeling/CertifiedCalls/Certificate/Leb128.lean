import CertifiedCalls.Bytes

/-! # LEB128 numbers
Words of 64 bits in groups of seven bits, least significant first. The high bit of an octet says that
another group follows. -/

namespace CertifiedCalls.Leb128

/-- Words lie below this bound. -/
def bound : Nat := 18446744073709551616

/-- Reads on from the group of an index, with the bits of the groups before it. The bits of a group
that starts beyond the word are refused, those of one that ends there are lost. -/
def readFrom (bits : UInt64) (i : Nat) : Bytes → Option UInt64
  | [] => none
  | b :: rest =>
    let shift := 7 * i
    if 64 ≤ shift then none
    else
      let bits := bits ||| (b &&& 0x7F).toUInt64 <<< UInt64.ofNat shift
      if b &&& 0x80 = 0 then some bits else readFrom bits (i + 1) rest

/-- Reads the number at the start of a byte string. -/
def read (bs : Bytes) : Option Nat := (readFrom 0 0 bs).map UInt64.toNat

/-- Writes a word. -/
def writeWord (value : UInt64) : Bytes :=
  let low := (value &&& 0x7F).toUInt8
  let others := value >>> 7
  if others = 0 then [low] else (low ||| 0x80) :: writeWord others
termination_by value.toNat
decreasing_by
  rename_i some_left
  have few : (value >>> 7).toNat = value.toNat / 128 := by
    rw [UInt64.toNat_shiftRight]
    exact Nat.shiftRight_eq_div_pow ..
  have positive : (value >>> 7).toNat ≠ 0 := fun none => some_left (UInt64.toNat_inj.mp none)
  omega

/-- Writes a number of 64 bits. -/
def write (n : Nat) : Bytes := writeWord (.ofNat n)

end CertifiedCalls.Leb128
