import CertifiedCalls.Decimal.Binary64
import CertifiedCalls.Bytes

/-! # Heads of MessagePack items
The **head** of an item is what its first octets say: the whole of a scalar, and the length of
anything longer. Heads are written in their shortest form and read in every form. -/

namespace CertifiedCalls.MessagePack

/-- Why octets do not start with an item. -/
inductive DecodeError where
  /-- The input ends where an item should start. -/
  | missingMarker
  /-- The input ends inside a number, a length or a type. -/
  | missingData
  /-- The input ends inside the contents of a string, a byte string or an extension. -/
  | truncated (expected read : Nat)
  /-- The item is nested too deeply. -/
  | tooDeep
deriving DecidableEq, Repr

/-- The wording of a decoding error. -/
def DecodeError.message : DecodeError → String
  | .missingMarker => "I/O error while reading marker byte: failed to fill whole buffer"
  | .missingData => "I/O error while reading non-marker bytes: failed to fill whole buffer"
  | .truncated expected read =>
    "I/O error while reading non-marker bytes: Expected " ++ toString expected
      ++ " bytes, read " ++ toString read ++ " bytes"
  | .tooDeep => "depth limit exceeded"

/-- The **head** of an item. -/
inductive Head where
  /-- Nil. -/
  | nil
  /-- A truth value. -/
  | bool (b : Bool)
  /-- An integer. -/
  | int (i : Int)
  /-- A single-precision number. -/
  | single (x : Binary32)
  /-- A double-precision number. -/
  | double (x : Binary64)
  /-- A string of so many octets. -/
  | text (length : Nat)
  /-- A byte string of so many octets. -/
  | binary (length : Nat)
  /-- A sequence of so many items. -/
  | array (count : Nat)
  /-- A sequence of so many entries. -/
  | map (count : Nat)
  /-- An extension with so many octets after its type. -/
  | ext (length : Nat)
deriving DecidableEq, Repr

/-- The integer whose two's complement in `width` octets is the given number. -/
def signed (width n : Nat) : Int :=
  if n < 1 <<< (8 * width - 1) then n else (n : Int) - (1 <<< (8 * width) : Nat)

/-- The two's complement of an integer in `width` octets. -/
def twosComplement (width : Nat) (i : Int) : Bytes :=
  Bytes.bigEndian width (if 0 ≤ i then i.toNat else (i + (1 <<< (8 * width) : Nat)).toNat)

namespace Head

/-- A marker followed by a number in so many octets. -/
def marked (marker : UInt8) (width n : Nat) : Bytes := marker :: Bytes.bigEndian width n

/-- The shortest form of a nonnegative integer. -/
def writeNat (n : Nat) : Bytes :=
  if n < 128 then [UInt8.ofNat n]
  else if n < 256 then marked 0xCC 1 n
  else if n < 65536 then marked 0xCD 2 n
  else if n < 4294967296 then marked 0xCE 4 n
  else marked 0xCF 8 n

/-- The shortest form of a negative integer. -/
def writeNegative (i : Int) : Bytes :=
  if -32 ≤ i then twosComplement 1 i
  else if -128 ≤ i then 0xD0 :: twosComplement 1 i
  else if -32768 ≤ i then 0xD1 :: twosComplement 2 i
  else if -2147483648 ≤ i then 0xD2 :: twosComplement 4 i
  else 0xD3 :: twosComplement 8 i

/-- The octets of a head, in the shortest form that holds it. -/
def write : Head → Bytes
  | .nil => [0xC0]
  | .bool b => [if b then 0xC3 else 0xC2]
  | .int i => if 0 ≤ i then writeNat i.toNat else writeNegative i
  | .single x => marked 0xCA 4 x.bits.toNat
  | .double x => marked 0xCB 8 x.bits.toNat
  | .text n =>
    if n < 32 then [UInt8.ofNat (0xA0 + n)]
    else if n < 256 then marked 0xD9 1 n
    else if n < 65536 then marked 0xDA 2 n
    else marked 0xDB 4 n
  | .binary n =>
    if n < 256 then marked 0xC4 1 n
    else if n < 65536 then marked 0xC5 2 n
    else marked 0xC6 4 n
  | .array n =>
    if n < 16 then [UInt8.ofNat (0x90 + n)]
    else if n < 65536 then marked 0xDC 2 n
    else marked 0xDD 4 n
  | .map n =>
    if n < 16 then [UInt8.ofNat (0x80 + n)]
    else if n < 65536 then marked 0xDE 2 n
    else marked 0xDF 4 n
  | .ext n =>
    if n = 1 then [0xD4]
    else if n = 2 then [0xD5]
    else if n = 4 then [0xD6]
    else if n = 8 then [0xD7]
    else if n = 16 then [0xD8]
    else if n < 256 then marked 0xC7 1 n
    else if n < 65536 then marked 0xC8 2 n
    else marked 0xC9 4 n

/-- A number of `width` octets and what follows it. -/
def readNumber (width : Nat) (bs : Bytes) : Except DecodeError (Nat × Bytes) :=
  match bs.splitAt? width with
  | some (front, rest) => .ok (front.toNat, rest)
  | none => .error .missingData

/-- A head made from a number of `width` octets, and what follows it. -/
def readFrom (width : Nat) (head : Nat → Head) (bs : Bytes) : Except DecodeError (Head × Bytes) :=
  (readNumber width bs).map fun (n, rest) => (head n, rest)

/-- The head that a marker announces, and what follows it. -/
def readAfter (marker : Nat) (bs : Bytes) : Except DecodeError (Head × Bytes) :=
  if marker < 0x80 then .ok (.int marker, bs)
  else if marker < 0x90 then .ok (.map (marker - 0x80), bs)
  else if marker < 0xA0 then .ok (.array (marker - 0x90), bs)
  else if marker < 0xC0 then .ok (.text (marker - 0xA0), bs)
  else if 0xE0 ≤ marker then .ok (.int ((marker : Int) - 256), bs)
  else
    match marker with
    | 0xC2 => .ok (.bool false, bs)
    | 0xC3 => .ok (.bool true, bs)
    | 0xC4 => readFrom 1 .binary bs
    | 0xC5 => readFrom 2 .binary bs
    | 0xC6 => readFrom 4 .binary bs
    | 0xC7 => readFrom 1 .ext bs
    | 0xC8 => readFrom 2 .ext bs
    | 0xC9 => readFrom 4 .ext bs
    | 0xCA => readFrom 4 (fun n => .single ⟨UInt32.ofNat n⟩) bs
    | 0xCB => readFrom 8 (fun n => .double ⟨UInt64.ofNat n⟩) bs
    | 0xCC => readFrom 1 (fun n => .int n) bs
    | 0xCD => readFrom 2 (fun n => .int n) bs
    | 0xCE => readFrom 4 (fun n => .int n) bs
    | 0xCF => readFrom 8 (fun n => .int n) bs
    | 0xD0 => readFrom 1 (fun n => .int (signed 1 n)) bs
    | 0xD1 => readFrom 2 (fun n => .int (signed 2 n)) bs
    | 0xD2 => readFrom 4 (fun n => .int (signed 4 n)) bs
    | 0xD3 => readFrom 8 (fun n => .int (signed 8 n)) bs
    | 0xD4 => .ok (.ext 1, bs)
    | 0xD5 => .ok (.ext 2, bs)
    | 0xD6 => .ok (.ext 4, bs)
    | 0xD7 => .ok (.ext 8, bs)
    | 0xD8 => .ok (.ext 16, bs)
    | 0xD9 => readFrom 1 .text bs
    | 0xDA => readFrom 2 .text bs
    | 0xDB => readFrom 4 .text bs
    | 0xDC => readFrom 2 .array bs
    | 0xDD => readFrom 4 .array bs
    | 0xDE => readFrom 2 .map bs
    | 0xDF => readFrom 4 .map bs
    | _ => .ok (.nil, bs)

/-- The head at the start of a byte string, and what follows it. The unassigned marker reads as
nil. -/
def read : Bytes → Except DecodeError (Head × Bytes)
  | [] => .error .missingMarker
  | marker :: bs => readAfter marker.toNat bs

end Head

end CertifiedCalls.MessagePack
