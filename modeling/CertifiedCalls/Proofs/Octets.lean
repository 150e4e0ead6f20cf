import CertifiedCalls.Bytes
import Mathlib.Data.List.Induction

/-! # Numbers in octets
A number that fits into a width is read back from its octets (`toNat_bigEndian`), and octets are those
of the number that they write (`bigEndian_toNat`). -/

namespace CertifiedCalls.Bytes

/-- The number of a byte string with one more octet at the end. -/
theorem toNat_append_singleton (bs : Bytes) (b : UInt8) :
    toNat (bs ++ [b]) = toNat bs * 256 + b.toNat := by
  simp [toNat]

/-- One more octet makes room for numbers that are 256 times as large. -/
theorem octets_succ (width : Nat) : 1 <<< (8 * (width + 1)) = (1 <<< (8 * width)) * 256 := by
  rw [Nat.mul_succ, Nat.shiftLeft_add, Nat.shiftLeft_eq _ 8]

/-- A number that fits into a width is read back from it. -/
theorem toNat_bigEndian {width n : Nat} (fits : n < 1 <<< (8 * width)) :
    toNat (bigEndian width n) = n := by
  induction width generalizing n with
  | zero =>
    have : n = 0 := by simpa using fits
    rw [this]
    rfl
  | succ width ih =>
    rw [octets_succ] at fits
    have front : n / 256 < 1 <<< (8 * width) := by omega
    rw [bigEndian, toNat_append_singleton, ih front, UInt8.toNat_ofNat']
    omega

/-- A number of octets is less than the number of their bit patterns. -/
theorem toNat_lt (octets : Bytes) : octets.toNat < 1 <<< (8 * octets.length) := by
  induction octets using List.reverseRecOn with
  | nil => decide
  | append_singleton front last ih =>
    have octet : last.toNat < 256 := last.toNat_lt
    rw [toNat_append_singleton, List.length_append, List.length_singleton, octets_succ]
    omega

/-- A byte string is the octets of the number that it writes. -/
theorem bigEndian_toNat (octets : Bytes) : bigEndian octets.length octets.toNat = octets := by
  induction octets using List.reverseRecOn with
  | nil => rfl
  | append_singleton front last ih =>
    have octet : last.toNat < 256 := last.toNat_lt
    have high : (toNat front * 256 + last.toNat) / 256 = toNat front := by omega
    have low : UInt8.ofNat (toNat front * 256 + last.toNat) = last := by
      rw [← UInt8.toNat_inj, UInt8.toNat_ofNat']
      omega
    rw [List.length_append, List.length_singleton, bigEndian, toNat_append_singleton, high, ih, low]

/-- Splitting off so many octets. -/
theorem eq_of_splitAt?_eq_some {n : Nat} {bs front rest : Bytes}
    (h : bs.splitAt? n = some (front, rest)) : bs = front ++ rest ∧ front.length = n := by
  rw [splitAt?] at h
  split at h
  · rename_i long
    obtain ⟨rfl, rfl⟩ := Prod.mk.inj (Option.some.inj h)
    exact ⟨(List.take_append_drop n bs).symm, long⟩
  · cases h

/-- So many octets cannot be split off when there are fewer. -/
theorem splitAt?_eq_none_iff {n : Nat} {bs : Bytes} : bs.splitAt? n = none ↔ bs.length < n := by
  rw [splitAt?, ite_eq_right_iff, List.length_take]
  constructor
  · intro short
    by_contra long
    exact absurd (short (by omega)) (by simp)
  · intro short long
    omega

end CertifiedCalls.Bytes
