import CertifiedCalls.Bytes

/-! # CRC-32
The cyclic redundancy check of IEEE 802.3, least significant bit first. -/

namespace CertifiedCalls.Crc32

/-- The remainder after one more bit. -/
def step (r : UInt32) : UInt32 :=
  if r &&& 1 = 1 then (r >>> 1) ^^^ 0xEDB88320 else r >>> 1

/-- The remainder after one more octet. -/
def update (r : UInt32) (b : UInt8) : UInt32 :=
  (List.range 8).foldl (fun r _ => step r) (r ^^^ b.toUInt32)

/-- The **check value** of a byte string. -/
def checksum (bs : Bytes) : UInt32 := ~~~(bs.foldl update 0xFFFFFFFF)

end CertifiedCalls.Crc32
