/-! # Byte strings
A **byte string** is a list of octets. This module holds the three views of one that the rest of
the library needs: hexadecimal text, big-endian numbers of a fixed width, and UTF-8. -/

namespace CertifiedCalls

/-- A **byte string**: a list of octets. -/
abbrev Bytes := List UInt8

/-- The lower-case hexadecimal digit of a number below sixteen. -/
def hexDigit (n : Nat) : Char :=
  if n < 10 then Char.ofNat (48 + n) else Char.ofNat (87 + n)

/-- The number of a hexadecimal digit in either case. -/
def hexValue? (c : Char) : Option Nat :=
  if c.isDigit then some (c.toNat - 48)
  else if 'a' ≤ c ∧ c ≤ 'f' then some (c.toNat - 87)
  else if 'A' ≤ c ∧ c ≤ 'F' then some (c.toNat - 55)
  else none

namespace Bytes

/-- The two hexadecimal digits of each octet, high digit first. -/
def hexDigits (bs : Bytes) : List Char :=
  bs.flatMap fun b => [hexDigit (b.toNat / 16), hexDigit (b.toNat % 16)]

/-- The lower-case hexadecimal text of a byte string. -/
def toHex (bs : Bytes) : String := String.ofList (hexDigits bs)

/-- Reads two hexadecimal digits for each octet onto the octets before them, the latest first. -/
def ofHexDigits? : List Char → Bytes → Option Bytes
  | [], read => some read.reverse
  | [_], _ => none
  | high :: low :: rest, read =>
    match hexValue? high, hexValue? low with
    | some h, some l => ofHexDigits? rest (UInt8.ofNat (16 * h + l) :: read)
    | _, _ => none

/-- The byte string of a hexadecimal text. -/
def ofHex? (s : String) : Option Bytes := ofHexDigits? s.toList []

/-- The last `width` octets of a number, most significant first. -/
def bigEndian : Nat → Nat → Bytes
  | 0, _ => []
  | width + 1, n => bigEndian width (n / 256) ++ [UInt8.ofNat n]

/-- The number that a byte string writes with its most significant octet first. -/
def toNat (bs : Bytes) : Nat := bs.foldl (fun n b => n * 256 + b.toNat) 0

/-- The UTF-8 encoding of a text. -/
def ofText (s : String) : Bytes := s.toUTF8.data.toList

/-- The text that a byte string encodes in UTF-8, if it encodes one. -/
def toText? (bs : Bytes) : Option String := String.fromUTF8? ⟨bs.toArray⟩

/-- The first `n` octets and the rest, or `none` when there are fewer. -/
def splitAt? (n : Nat) (bs : Bytes) : Option (Bytes × Bytes) :=
  if (bs.take n).length = n then some (bs.take n, bs.drop n) else none

/-- Whether one byte string comes before another: octet by octet, and a proper front first. -/
def before : Bytes → Bytes → Bool
  | _, [] => false
  | [], _ :: _ => true
  | a :: as, b :: bs => a < b || (a == b && before as bs)

/-- Cuts a byte string into blocks of `size` octets, the last of which may be shorter. -/
def blocks (size : Nat) (bs : Bytes) : List Bytes :=
  if _h : 0 < size ∧ bs ≠ [] then bs.take size :: blocks size (bs.drop size) else []
termination_by bs.length
decreasing_by
  have := List.length_pos_iff.mpr _h.2
  simp only [List.length_drop]
  omega

@[simp] theorem hexDigits_nil : hexDigits [] = [] := rfl

/-- Hexadecimal text has two digits for each octet. -/
@[simp] theorem length_hexDigits (bs : Bytes) : (hexDigits bs).length = 2 * bs.length := by
  induction bs with
  | nil => rfl
  | cons b bs ih =>
    simp only [hexDigits, List.flatMap_cons, List.length_append] at ih ⊢
    simp [ih]
    omega

/-- The digit of a number is read back as that number. -/
theorem hexValue?_hexDigit {n : Nat} (h : n < 16) : hexValue? (hexDigit n) = some n := by
  have all : ∀ n : Fin 16, hexValue? (hexDigit n) = some n.val := by decide
  exact all ⟨n, h⟩

/-- The digits of octets are read back onto those before them. -/
theorem ofHexDigits?_hexDigits (bs read : Bytes) :
    ofHexDigits? (hexDigits bs) read = some (read.reverse ++ bs) := by
  induction bs generalizing read with
  | nil => simp [ofHexDigits?]
  | cons b bs ih =>
    have hb : b.toNat < 256 := b.toNat_lt
    have high : hexValue? (hexDigit (b.toNat / 16)) = some (b.toNat / 16) :=
      hexValue?_hexDigit (by omega)
    have low : hexValue? (hexDigit (b.toNat % 16)) = some (b.toNat % 16) :=
      hexValue?_hexDigit (by omega)
    have whole : UInt8.ofNat (16 * (b.toNat / 16) + b.toNat % 16) = b := by
      rw [Nat.div_add_mod, UInt8.ofNat_toNat]
    simp only [hexDigits, List.flatMap_cons, List.cons_append, List.nil_append] at ih ⊢
    simp only [ofHexDigits?, high, low, whole, ih]
    simp

/-- Hexadecimal text is read back as the octets that it was written from. -/
theorem ofHex?_toHex (bs : Bytes) : ofHex? bs.toHex = some bs := by
  simp [ofHex?, toHex, ofHexDigits?_hexDigits]

/-- A big-endian number of a given width has that many octets. -/
@[simp] theorem length_bigEndian (width n : Nat) : (bigEndian width n).length = width := by
  induction width generalizing n with
  | zero => rfl
  | succ width ih => simp [bigEndian, ih]

/-- Splitting off the front of a concatenation gives back its two parts. -/
@[simp] theorem splitAt?_append (front rest : Bytes) :
    splitAt? front.length (front ++ rest) = some (front, rest) := by
  simp [splitAt?]

end Bytes

end CertifiedCalls
