import CertifiedCalls.Proofs.Certificate.Groups
import Mathlib.Algebra.Order.Floor.Div
import Mathlib.Data.Nat.Size

/-! # The shortest groups of a number
A number is written in as few groups as hold its bits, and the high bits of the groups say where the
number ends, so nothing shorter is read as the same number, nothing that follows disturbs it, and what
has been cut off is refused (`write_canonical`). -/

namespace CertifiedCalls.Leb128

/-- A number of seven bits is one group. -/
theorem groupsOf_of_lt {n : Nat} (small : n < 128) : groupsOf n = [UInt8.ofNat n] := by
  rw [groupsOf, if_pos small]

/-- A greater number is its low seven bits, marked, in front of the groups of the others. -/
theorem groupsOf_of_le {n : Nat} (large : 128 ≤ n) :
    groupsOf n = UInt8.ofNat (n % 128 + 128) :: groupsOf (n / 128) := by
  rw [groupsOf, if_neg (Nat.not_lt.mpr large)]

/-- What is written is the groups of one number. -/
theorem isNumber_groupsOf (n : Nat) : IsNumber (groupsOf n) := by
  induction n using Nat.strong_induction_on with
  | _ n ih =>
    by_cases small : n < 128
    · rw [groupsOf_of_lt small]
      exact ⟨[], UInt8.ofNat n, rfl, by simp, by rw [toNat_octet (by omega)]; exact small⟩
    · obtain ⟨front, last, others, continued, ended⟩ := ih (n / 128) (by omega)
      have octet : (UInt8.ofNat (n % 128 + 128)).toNat = n % 128 + 128 := toNat_octet (by omega)
      rw [groupsOf_of_le (by omega), others]
      exact ⟨_ :: front, last, rfl, List.forall_mem_cons.mpr ⟨by omega, continued⟩, ended⟩

/-- **So many groups are enough** exactly for the numbers of seven times as many bits. -/
theorem length_groupsOf_le_iff {n k : Nat} : (groupsOf n).length ≤ k + 1 ↔ n < 128 ^ (k + 1) := by
  induction k generalizing n with
  | zero =>
    by_cases small : n < 128
    · simp [groupsOf_of_lt small, small]
    · -- The marked group is followed by those of another number, of which there is one at least.
      have others : groupsOf (n / 128) ≠ [] := by
        obtain ⟨front, last, e, -⟩ := isNumber_groupsOf (n / 128)
        simp [e]
      simp [groupsOf_of_le (Nat.le_of_not_lt small), others, small]
  | succ k ih =>
    have power : 128 ^ (k + 1) * 128 = 128 ^ (k + 1 + 1) := (Nat.pow_succ ..).symm
    by_cases small : n < 128
    · have enough : 0 < 128 ^ (k + 1) := Nat.pow_pos (by decide)
      simp only [groupsOf_of_lt small, List.length_singleton]
      omega
    · rw [groupsOf_of_le (by omega), List.length_cons, Nat.add_le_add_iff_right, ih,
        Nat.div_lt_iff_lt_mul (by decide), power]

/-- A number is written in as many groups as its bits fill, and zero in one. -/
theorem length_groupsOf (n : Nat) : (groupsOf n).length = max 1 (n.size ⌈/⌉ 7) := by
  have one : 1 ≤ (groupsOf n).length := by
    obtain ⟨front, last, e, -⟩ := isNumber_groupsOf n
    simp [e]
  -- Both numbers of groups are enough for the same numbers of bits.
  have same (k : Nat) : (groupsOf n).length ≤ k + 1 ↔ max 1 (n.size ⌈/⌉ 7) ≤ k + 1 := by
    have power : 128 ^ (k + 1) = 2 ^ (7 * (k + 1)) := by rw [Nat.pow_mul]
    rw [length_groupsOf_le_iff, power, ← Nat.size_le, Nat.ceilDiv_eq_add_pred_div]
    omega
  apply Nat.le_antisymm
  · have := (same (max 1 (n.size ⌈/⌉ 7) - 1)).mpr
    omega
  · have := (same ((groupsOf n).length - 1)).mp
    omega

/-- A number of 64 bits is read from no fewer octets than it is written in. -/
theorem length_groupsOf_le_of_read {n : Nat} {bs : Bytes} (told : read bs = some n) :
    (groupsOf n).length ≤ bs.length := by
  rcases exists_number bs with continued | ⟨groups, rest, rfl, number⟩
  · simp [read_eq, number?_of_continued continued] at told
  · rw [read_append number] at told
    have least : n < 128 ^ groups.length := by
      split at told
      · obtain rfl := Option.some.inj told
        exact Nat.lt_of_le_of_lt (Nat.mod_le _ _) (denoted_lt groups)
      · cases told
    obtain ⟨front, last, rfl, -⟩ := number
    have few := length_groupsOf_le_iff.mpr (by simpa using least)
    simp only [List.length_append, List.length_singleton]
    omega

/-- In a proper front of the groups of a number every octet says that another follows. -/
theorem IsNumber.continued {groups front : Bytes} (number : IsNumber groups) (start : front <+: groups)
    (proper : front ≠ groups) : ∀ b ∈ front, 128 ≤ b.toNat := by
  obtain ⟨others, last, rfl, continued, -⟩ := number
  rcases List.prefix_concat_iff.mp start with e | shorter
  · exact absurd e proper
  · intro b mem
    exact continued b (shorter.mem mem)

/-- **Numbers are written canonically and delimit themselves.** A number of 64 bits is read back,
whatever follows it. It is written in as many groups as its bits fill, all but the last of which are
marked, and it is read from no fewer octets; a proper front of what is written is refused. -/
theorem write_canonical {n : Nat} (fits : n < bound) (rest : Bytes) :
    read (write n ++ rest) = some n ∧
    (write n).length = max 1 (n.size ⌈/⌉ 7) ∧
    IsNumber (write n) ∧
    (∀ bs, read bs = some n → (write n).length ≤ bs.length) ∧
    ∀ front, front <+: write n → front ≠ write n → read front = none := by
  have told := read_write fits rest
  rw [write_eq fits] at told ⊢
  refine ⟨told, length_groupsOf n, isNumber_groupsOf n,
    fun bs => length_groupsOf_le_of_read, fun front start proper => ?_⟩
  have continued := (isNumber_groupsOf n).continued start proper
  rw [read_eq, number?_of_continued continued, Option.map_none]

/-- The least number of ten groups, with another number behind it. -/
theorem write_canonical_ten_groups :
    9223372036854775808 < bound ∧
    write 9223372036854775808 = [0x80, 0x80, 0x80, 0x80, 0x80, 0x80, 0x80, 0x80, 0x80, 0x01] ∧
    read (write 9223372036854775808 ++ write 300) = some 9223372036854775808 ∧
    read ((write 9223372036854775808).take 9) = none := by
  have small : 9223372036854775808 < bound := by decide
  have groups : write 9223372036854775808
      = [0x80, 0x80, 0x80, 0x80, 0x80, 0x80, 0x80, 0x80, 0x80, 0x01] := by
    simp [write_eq small, groupsOf]
  obtain ⟨told, -, -, -, refused⟩ := write_canonical small (write 300)
  exact ⟨small, groups, told, refused _ (List.take_prefix 9 _) (by simp [groups])⟩

end CertifiedCalls.Leb128
