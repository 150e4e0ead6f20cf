import CertifiedCalls.MessagePack.Head
import CertifiedCalls.Proofs.Octets

/-! # Reading heads back
Numbers of a fixed width are read back, and so is every head whose numbers fit into its longest
form (`read_write`): whatever follows a head, reading takes just the head off. -/

namespace CertifiedCalls.MessagePack

open Bytes (bigEndian)

/-- The two's complement of an integer as a number. -/
def complement (width : Nat) (i : Int) : Nat :=
  if 0 ≤ i then i.toNat else (i + (1 <<< (8 * width) : Nat)).toNat

theorem twosComplement_eq (width : Nat) (i : Int) :
    twosComplement width i = bigEndian width (complement width i) := rfl

/-- An integer within a width is the one whose two's complement was taken. -/
theorem signed_complement {width : Nat} {i : Int} (positive : 0 < width)
    (low : -(1 <<< (8 * width - 1) : Nat) ≤ i) (high : i < (1 <<< (8 * width - 1) : Nat)) :
    complement width i < 1 <<< (8 * width) ∧ signed width (complement width i) = i := by
  -- Both halves of the range have the size that the sign bit stands for.
  have double : 1 <<< (8 * width) = (1 <<< (8 * width - 1)) * 2 := by
    rw [show 8 * width = 8 * width - 1 + 1 by omega, Nat.shiftLeft_succ, Nat.add_sub_cancel]
    omega
  unfold signed complement
  split <;> split <;> omega

namespace Head

/-- The numbers of a head **fit** into its longest form. -/
def Fits : Head → Prop
  | .int i => -9223372036854775808 ≤ i ∧ i < 18446744073709551616
  | .text n => n < 4294967296
  | .binary n => n < 4294967296
  | .array n => n < 4294967296
  | .map n => n < 4294967296
  | .ext n => n < 4294967296
  | _ => True

/-- A number is read back from its octets, whatever follows them. -/
theorem readNumber_bigEndian {width n : Nat} (fits : n < 1 <<< (8 * width)) (rest : Bytes) :
    readNumber width (bigEndian width n ++ rest) = .ok (n, rest) := by
  have split := Bytes.splitAt?_append (bigEndian width n) rest
  rw [Bytes.length_bigEndian] at split
  rw [readNumber, split]
  simp only [Bytes.toNat_bigEndian fits]

/-- A head made from a number is read back from the number's octets. -/
theorem readFrom_bigEndian {width n : Nat} (fits : n < 1 <<< (8 * width)) (head : Nat → Head)
    (rest : Bytes) : readFrom width head (bigEndian width n ++ rest) = .ok (head n, rest) := by
  rw [readFrom, readNumber_bigEndian fits]
  rfl

/-- A marked number is read as what its marker announces. -/
theorem read_marked {marker : UInt8} {width n : Nat} (head : Nat → Head)
    (announces : readAfter marker.toNat = readFrom width head) (fits : n < 1 <<< (8 * width))
    (rest : Bytes) : read (marked marker width n ++ rest) = .ok (head n, rest) := by
  rw [marked, List.cons_append, read, announces, readFrom_bigEndian fits]

/-- A marker alone is read by its number. -/
theorem read_singleton {n : Nat} (small : n < 256) (rest : Bytes) :
    read ([UInt8.ofNat n] ++ rest) = readAfter n rest := by
  rw [List.singleton_append, read, UInt8.toNat_ofNat', Nat.mod_eq_of_lt small]

/-! ### Markers that carry their number -/

theorem readAfter_nat {n : Nat} (small : n < 128) (rest : Bytes) :
    readAfter n rest = .ok (.int n, rest) := by
  unfold readAfter
  rw [if_pos small]

theorem readAfter_negative {i : Int} (low : -32 ≤ i) (negative : i < 0) (rest : Bytes) :
    readAfter (i + 256).toNat rest = .ok (.int i, rest) := by
  unfold readAfter
  rw [if_neg (by omega), if_neg (by omega), if_neg (by omega), if_neg (by omega),
    if_pos (by omega)]
  have : ((i + 256).toNat : Int) - 256 = i := by omega
  rw [this]

theorem readAfter_map {n : Nat} (small : n < 16) (rest : Bytes) :
    readAfter (0x80 + n) rest = .ok (.map n, rest) := by
  unfold readAfter
  rw [if_neg (by omega), if_pos (by omega), Nat.add_sub_cancel_left]

theorem readAfter_array {n : Nat} (small : n < 16) (rest : Bytes) :
    readAfter (0x90 + n) rest = .ok (.array n, rest) := by
  unfold readAfter
  rw [if_neg (by omega), if_neg (by omega), if_pos (by omega), Nat.add_sub_cancel_left]

theorem readAfter_text {n : Nat} (small : n < 32) (rest : Bytes) :
    readAfter (0xA0 + n) rest = .ok (.text n, rest) := by
  unfold readAfter
  rw [if_neg (by omega), if_neg (by omega), if_neg (by omega), if_pos (by omega),
    Nat.add_sub_cancel_left]

/-! ### Whole heads -/

/-- Natural numbers are read back. -/
theorem read_writeNat {n : Nat} (fits : n < 18446744073709551616) (rest : Bytes) :
    read (writeNat n ++ rest) = .ok (.int n, rest) := by
  unfold writeNat
  split
  · rename_i small
    rw [read_singleton (by omega), readAfter_nat small]
  split
  · exact read_marked (fun n => .int n) rfl (by simpa) rest
  split
  · exact read_marked (fun n => .int n) rfl (by simpa) rest
  split
  · exact read_marked (fun n => .int n) rfl (by simpa) rest
  · exact read_marked (fun n => .int n) rfl (by simpa) rest

/-- A marked negative integer is read back. -/
theorem read_complement {marker : UInt8} {width : Nat} {i : Int}
    (announces : readAfter marker.toNat = readFrom width fun n => .int (signed width n))
    (positive : 0 < width) (low : -(1 <<< (8 * width - 1) : Nat) ≤ i) (negative : i < 0)
    (rest : Bytes) : read (marker :: twosComplement width i ++ rest) = .ok (.int i, rest) := by
  obtain ⟨fits, same⟩ := signed_complement positive low (by omega)
  rw [twosComplement_eq]
  exact (read_marked _ announces fits rest).trans (by rw [same])

/-- Negative integers are read back. -/
theorem read_writeNegative {i : Int} (fits : -9223372036854775808 ≤ i) (negative : i < 0)
    (rest : Bytes) : read (writeNegative i ++ rest) = .ok (.int i, rest) := by
  unfold writeNegative
  split
  · rename_i small
    -- A small negative integer is its own marker.
    have octet : twosComplement 1 i = [UInt8.ofNat (i + 256).toNat] := by
      rw [twosComplement_eq, complement, if_neg (by omega)]
      rfl
    rw [octet, read_singleton (by omega), readAfter_negative small negative]
  split
  · exact read_complement rfl (by decide) (by simpa) negative rest
  split
  · exact read_complement rfl (by decide) (by simpa) negative rest
  split
  · exact read_complement rfl (by decide) (by simpa) negative rest
  · exact read_complement rfl (by decide) (by simpa) negative rest

/-- Reading takes back the head that was written, whatever follows it. -/
theorem read_write {head : Head} (fits : head.Fits) (rest : Bytes) :
    read (head.write ++ rest) = .ok (head, rest) := by
  cases head with
  | nil => rfl
  | bool b => cases b <;> rfl
  | int i =>
    obtain ⟨low, high⟩ := fits
    simp only [write]
    split
    · rename_i nonneg
      rw [read_writeNat (by omega), Int.toNat_of_nonneg nonneg]
    · exact read_writeNegative low (by omega) rest
  | single x =>
    refine (read_marked (fun n => .single ⟨UInt32.ofNat n⟩) rfl ?_ rest).trans ?_
    · simpa using x.bits.toNat_lt
    · rw [UInt32.ofNat_toNat]
  | double x =>
    refine (read_marked (fun n => .double ⟨UInt64.ofNat n⟩) rfl ?_ rest).trans ?_
    · simpa using x.bits.toNat_lt
    · rw [UInt64.ofNat_toNat]
  | text n =>
    simp only [Fits] at fits
    simp only [write]
    split
    · rename_i small
      rw [read_singleton (by omega), readAfter_text small]
    split
    · exact read_marked _ rfl (by simpa) rest
    split
    · exact read_marked _ rfl (by simpa) rest
    · exact read_marked _ rfl (by simpa) rest
  | binary n =>
    simp only [Fits] at fits
    simp only [write]
    split
    · exact read_marked _ rfl (by simpa) rest
    split
    · exact read_marked _ rfl (by simpa) rest
    · exact read_marked _ rfl (by simpa) rest
  | array n =>
    simp only [Fits] at fits
    simp only [write]
    split
    · rename_i small
      rw [read_singleton (by omega), readAfter_array small]
    split
    · exact read_marked _ rfl (by simpa) rest
    · exact read_marked _ rfl (by simpa) rest
  | map n =>
    simp only [Fits] at fits
    simp only [write]
    split
    · rename_i small
      rw [read_singleton (by omega), readAfter_map small]
    split
    · exact read_marked _ rfl (by simpa) rest
    · exact read_marked _ rfl (by simpa) rest
  | ext n =>
    simp only [Fits] at fits
    simp only [write]
    -- Five lengths have markers of their own; all others are written after a marker.
    split
    · subst n
      rfl
    split
    · subst n
      rfl
    split
    · subst n
      rfl
    split
    · subst n
      rfl
    split
    · subst n
      rfl
    split
    · exact read_marked _ rfl (by simpa) rest
    split
    · exact read_marked _ rfl (by simpa) rest
    · exact read_marked _ rfl (by simpa) rest

end Head

end CertifiedCalls.MessagePack
