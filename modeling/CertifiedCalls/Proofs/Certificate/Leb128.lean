import CertifiedCalls.Certificate.Leb128
import Mathlib.Algebra.Group.Nat.Defs
import Mathlib.Data.Nat.Bitwise

/-! # Reading numbers back
Shifting groups into a word comes to arithmetic on numbers: what is read are the low 64 bits of the
**digits** to the base 128 at the start of a byte string (`read_eq`), and a word is written as its
digits (`write_eq`). A number that is written is therefore read back, whatever follows it
(`read_write`). -/

namespace CertifiedCalls.Leb128

/-- How many groups a number of 64 bits has at most. -/
def maxGroups : Nat := 10

/-- The number that at most so many groups at the start of a byte string write. -/
def number? : Nat → Bytes → Option Nat
  | 0, _ => none
  | _, [] => none
  | groups + 1, b :: rest =>
    if b.toNat < 128 then some b.toNat
    else (number? groups rest).map fun n => b.toNat % 128 + 128 * n

/-- The groups of a number. -/
def groupsOf (n : Nat) : Bytes :=
  if n < 128 then [UInt8.ofNat n] else UInt8.ofNat (n % 128 + 128) :: groupsOf (n / 128)
termination_by n
decreasing_by omega

/-! ### Octets -/

/-- An octet has the number that it was made of. -/
theorem toNat_octet {n : Nat} (small : n < 256) : (UInt8.ofNat n).toNat = n :=
  UInt8.toNat_ofNat_of_lt small

/-- The low seven bits of an octet. -/
theorem toNat_low (b : UInt8) : (b &&& 0x7F).toNat = b.toNat % 128 := by
  rw [UInt8.toNat_and]
  exact Nat.and_two_pow_sub_one_eq_mod b.toNat 7

/-- The high bit of an octet is clear when it is a number of seven bits. -/
theorem high_eq_zero_iff (b : UInt8) : b &&& 0x80 = 0 ↔ b.toNat < 128 := by
  have bit : (b &&& 0x80).toNat = (b.toNat.testBit 7).toNat * 128 := by
    rw [UInt8.toNat_and]
    exact Nat.and_two_pow b.toNat 7
  have octet := b.toNat_lt
  rw [← UInt8.toNat_inj, bit, Nat.testBit_eq_decide_div_mod_eq]
  by_cases set : b.toNat / 2 ^ 7 % 2 = 1
  · simp only [set, decide_true, Bool.toNat_true]
    exact iff_of_false (by decide) (by omega)
  · simp only [set, decide_false, Bool.toNat_false]
    exact iff_of_true rfl (by omega)

/-! ### Reading -/

/-- A digit in front of a number of one digit less. -/
theorem add_mul_lt {low power digit base : Nat} (before : low < power) (room : digit < base) :
    low + power * digit < power * base :=
  calc low + power * digit
      < power + power * digit := Nat.add_lt_add_right before _
    _ = power * (digit + 1) := by rw [Nat.mul_succ, Nat.add_comm]
    _ ≤ power * base := Nat.mul_le_mul_left _ room

/-- A group that is shifted behind the bits before it counts 2 to the power of the shift, as far as a
word has room for it. -/
theorem toNat_or_shift {bits : UInt64} {shift : Nat} (inside : shift < 64)
    (before : bits.toNat < 2 ^ shift) (b : UInt8) :
    (bits ||| (b &&& 0x7F).toUInt64 <<< UInt64.ofNat shift).toNat
      = (bits.toNat + 2 ^ shift * (b.toNat % 128)) % bound := by
  have amount : (UInt64.ofNat shift).toNat % 64 = shift := by
    rw [UInt64.toNat_ofNat_of_lt' (Nat.lt_trans inside (by decide)), Nat.mod_eq_of_lt inside]
  have word : bound = 2 ^ shift * 2 ^ (64 - shift) := by
    rw [← Nat.pow_add, Nat.add_sub_cancel' (Nat.le_of_lt inside)]
    rfl
  -- What a word has no room for are multiples of the power that is left.
  have lost : (b.toNat % 128) <<< shift % bound
      = 2 ^ shift * (b.toNat % 128 % 2 ^ (64 - shift)) := by
    rw [Nat.shiftLeft_eq, Nat.mul_comm, word, Nat.mul_mod_mul_left]
  have total : bits.toNat + 2 ^ shift * (b.toNat % 128 % 2 ^ (64 - shift)) < bound :=
    word ▸ add_mul_lt before (Nat.mod_lt _ (Nat.two_pow_pos _))
  have shifted : ((b &&& 0x7F).toUInt64 <<< UInt64.ofNat shift).toNat
      = 2 ^ shift * (b.toNat % 128 % 2 ^ (64 - shift)) := by
    rw [UInt64.toNat_shiftLeft, UInt8.toNat_toUInt64, toNat_low, amount]
    exact lost
  rw [UInt64.toNat_or, shifted, Nat.lor_comm, ← Nat.two_pow_add_eq_or_of_lt before, Nat.add_comm]
  calc bits.toNat + 2 ^ shift * (b.toNat % 128 % 2 ^ (64 - shift))
      = (bits.toNat + 2 ^ shift * (b.toNat % 128 % 2 ^ (64 - shift))) % bound :=
        (Nat.mod_eq_of_lt total).symm
    _ = (bits.toNat + 2 ^ shift * (b.toNat % 128) % bound) % bound := by
        rw [word, Nat.mul_mod_mul_left]
    _ = (bits.toNat + 2 ^ shift * (b.toNat % 128)) % bound := Nat.add_mod_mod ..

/-- Behind the bits of as many groups, the digits that follow count 128 to the power of their
number. -/
theorem readFrom_eq {bits : UInt64} {i : Nat} (few : i ≤ maxGroups) (before : bits.toNat < 2 ^ (7 * i))
    (bs : Bytes) :
    (readFrom bits i bs).map UInt64.toNat =
      (number? (maxGroups - i) bs).map fun n => (bits.toNat + 2 ^ (7 * i) * n) % bound := by
  induction bs generalizing bits i with
  | nil => cases maxGroups - i <;> rfl
  | cons b rest ih =>
    by_cases all : i = maxGroups
    · rw [all, Nat.sub_self, readFrom, if_pos (by decide)]
      rfl
    · have less : i < maxGroups := Nat.lt_of_le_of_ne few all
      have inside : 7 * i < 64 := by
        have : maxGroups = 10 := rfl
        omega
      obtain ⟨left, left_eq⟩ : ∃ left, maxGroups - i = left + 1 :=
        Nat.exists_eq_succ_of_ne_zero (Nat.sub_ne_zero_of_lt less)
      have joined := toNat_or_shift inside before b
      rw [left_eq, number?, readFrom, if_neg (Nat.not_le.mpr inside)]
      by_cases ended : b.toNat < 128
      · rw [if_pos ((high_eq_zero_iff b).mpr ended), if_pos ended, Option.map_some, Option.map_some,
          joined, Nat.mod_eq_of_lt ended]
      · have power : 2 ^ (7 * (i + 1)) = 2 ^ (7 * i) * 128 := Nat.pow_add 2 (7 * i) 7
        have below : bits.toNat + 2 ^ (7 * i) * (b.toNat % 128) < 2 ^ (7 * (i + 1)) :=
          power ▸ add_mul_lt before (Nat.mod_lt b.toNat (by decide))
        have others := ih less (Nat.lt_of_le_of_lt (joined ▸ Nat.mod_le ..) below)
        have left_others : maxGroups - (i + 1) = left := by omega
        rw [if_neg fun high => ended ((high_eq_zero_iff b).mp high), if_neg ended, others, joined,
          left_others, Option.map_map]
        congr 1
        funext n
        rw [Function.comp_apply, Nat.mod_add_mod, power, Nat.mul_add, Nat.mul_assoc, Nat.add_assoc]

/-- **What is read are the low 64 bits of the digits**, of which there are ten at most. -/
theorem read_eq (bs : Bytes) : read bs = (number? maxGroups bs).map (· % bound) := by
  have all : read bs = _ := readFrom_eq (i := 0) (Nat.zero_le _) (by decide) bs
  simpa only [Nat.sub_zero, Nat.mul_zero, Nat.pow_zero, Nat.one_mul, UInt64.toNat_zero,
    Nat.zero_add] using all

/-! ### Writing -/

/-- A word is written as its groups. -/
theorem writeWord_eq (value : UInt64) : writeWord value = groupsOf value.toNat := by
  generalize number : value.toNat = n
  induction n using Nat.strong_induction_on generalizing value with
  | _ n ih =>
    have others : (value >>> 7).toNat = n / 128 := by
      rw [UInt64.toNat_shiftRight, number]
      exact Nat.shiftRight_eq_div_pow ..
    have low : ((value &&& 0x7F).toUInt8).toNat = n % 128 := by
      rw [UInt64.toNat_toUInt8, UInt64.toNat_and, number]
      show (n &&& 2 ^ 7 - 1) % 2 ^ 8 = n % 128
      rw [Nat.and_two_pow_sub_one_eq_mod]
      omega
    have marked : ((value &&& 0x7F).toUInt8 ||| 0x80) = UInt8.ofNat (n % 128 + 128) := by
      rw [← UInt8.toNat_inj, UInt8.toNat_or, low, toNat_octet (by omega), Nat.lor_comm]
      exact (Nat.two_pow_add_eq_or_of_lt (show n % 128 < 2 ^ 7 by omega) 1).symm.trans (Nat.add_comm ..)
    rw [writeWord, groupsOf]
    by_cases small : n < 128
    · have none : value >>> 7 = 0 := UInt64.toNat_inj.mp (others.trans (Nat.div_eq_of_lt small))
      have whole : (value &&& 0x7F).toUInt8 = UInt8.ofNat n := by
        rw [← UInt8.toNat_inj, low, toNat_octet (by omega), Nat.mod_eq_of_lt small]
      rw [if_pos small, if_pos none, whole]
    · have some_left : value >>> 7 ≠ 0 := fun none => by
        have := others.symm.trans (congrArg UInt64.toNat none)
        have zero : (0 : UInt64).toNat = 0 := rfl
        omega
      rw [if_neg small, if_neg some_left, marked, ih _ (by omega) _ others]

/-- **What is written are the digits**, of a number of 64 bits. -/
theorem write_eq {n : Nat} (fits : n < bound) : write n = groupsOf n := by
  rw [write, writeWord_eq, UInt64.toNat_ofNat_of_lt' fits]

/-! ### Reading back -/

/-- A number is read back within a budget of groups that covers it. -/
theorem number?_groupsOf {groups n : Nat} (fits : n < 128 ^ (groups + 1)) (rest : Bytes) :
    number? (groups + 1) (groupsOf n ++ rest) = some n := by
  induction groups generalizing n with
  | zero =>
    have small : n < 128 := fits
    have octet : (UInt8.ofNat n).toNat = n := toNat_octet (by omega)
    rw [groupsOf, if_pos small, List.cons_append, number?, octet, if_pos small]
  | succ groups ih =>
    rw [groupsOf]
    split
    · rename_i small
      have octet : (UInt8.ofNat n).toNat = n := toNat_octet (by omega)
      rw [List.cons_append, number?, octet, if_pos small]
    · -- The high bit of the first group is set, and what follows it is the number of the others.
      have octet : (UInt8.ofNat (n % 128 + 128)).toNat = n % 128 + 128 :=
        toNat_octet (by omega)
      have others : n / 128 < 128 ^ (groups + 1) := by
        rw [Nat.pow_succ] at fits
        exact Nat.div_lt_of_lt_mul (Nat.mul_comm _ _ ▸ fits)
      rw [List.cons_append, number?, octet, if_neg (by omega), ih others, Option.map_some]
      congr 1
      omega

/-- Numbers of 64 bits are read back, whatever follows them. -/
theorem read_write {n : Nat} (fits : n < bound) (rest : Bytes) : read (write n ++ rest) = some n := by
  have enough : n < 128 ^ maxGroups := Nat.lt_trans fits (by decide)
  rw [read_eq, write_eq fits, maxGroups, number?_groupsOf enough, Option.map_some,
    Nat.mod_eq_of_lt fits]

end CertifiedCalls.Leb128
