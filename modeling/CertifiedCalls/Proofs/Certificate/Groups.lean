import CertifiedCalls.Proofs.Certificate.Leb128
import Mathlib.Data.Nat.Digits.Defs

/-! # What groups denote
Groups of seven bits **denote** a number without any bound on it. A number of 64 bits is read as
denoted, and one that does not end, or has more than ten groups, is refused (`read_exact`). Ten groups
have room for six bits more than a word has: a number of ten groups that takes any of them is read
without them (`read_ten_groups`). -/

namespace CertifiedCalls.Leb128

/-- Octets are the **groups** of one number when the last of them, and no other, has its high bit
clear. -/
def IsNumber (groups : Bytes) : Prop :=
  ∃ front last, groups = front ++ [last] ∧ (∀ b ∈ front, 128 ≤ b.toNat) ∧ last.toNat < 128

/-- The number that groups **denote**: the sum of their low seven bits, each group at its power of
128. -/
def denoted (groups : Bytes) : Nat := Nat.ofDigits 128 (groups.map fun b => b.toNat % 128)

/-- The first group counts once, the others 128 times. -/
theorem denoted_cons (b : UInt8) (groups : Bytes) :
    denoted (b :: groups) = b.toNat % 128 + 128 * denoted groups := rfl

/-- So many groups denote a number of seven times as many bits. -/
theorem denoted_lt (groups : Bytes) : denoted groups < 128 ^ groups.length := by
  have digits : ∀ d ∈ groups.map fun b => b.toNat % 128, d < 128 := by
    intro d mem
    obtain ⟨b, -, rfl⟩ := List.mem_map.mp mem
    exact Nat.mod_lt _ (by decide)
  have less := Nat.ofDigits_lt_base_pow_length (by decide) digits
  rwa [List.length_map] at less

/-- A byte string starts with the groups of a number, unless every octet of it says that another
follows. -/
theorem exists_number (bs : Bytes) :
    (∀ b ∈ bs, 128 ≤ b.toNat) ∨ ∃ groups rest, bs = groups ++ rest ∧ IsNumber groups := by
  induction bs with
  | nil => exact .inl fun b mem => absurd mem List.not_mem_nil
  | cons b bs ih =>
    by_cases ended : b.toNat < 128
    · exact .inr ⟨[b], bs, rfl, [], b, rfl, fun _ mem => absurd mem List.not_mem_nil, ended⟩
    · have continued := Nat.le_of_not_lt ended
      rcases ih with all | ⟨groups, rest, rfl, front, last, rfl, high, low⟩
      · exact .inl (List.forall_mem_cons.mpr ⟨continued, all⟩)
      · exact .inr ⟨b :: (front ++ [last]), rest, rfl, b :: front, last, rfl,
          List.forall_mem_cons.mpr ⟨continued, high⟩, low⟩

/-! ### Within a budget -/

/-- What does not end is no number. -/
theorem number?_of_continued {bs : Bytes} (continued : ∀ b ∈ bs, 128 ≤ b.toNat) (budget : Nat) :
    number? budget bs = none := by
  induction bs generalizing budget with
  | nil => cases budget <;> rfl
  | cons b bs ih =>
    cases budget with
    | zero => rfl
    | succ budget =>
      obtain ⟨here, later⟩ := List.forall_mem_cons.mp continued
      rw [number?, if_neg (Nat.not_lt.mpr here), ih later, Option.map_none]

/-- Groups are read as what they denote when there are not too many of them. -/
theorem number?_append {groups : Bytes} (number : IsNumber groups) (rest : Bytes) (budget : Nat) :
    number? budget (groups ++ rest)
      = if groups.length ≤ budget then some (denoted groups) else none := by
  obtain ⟨front, last, rfl, continued, ended⟩ := number
  induction front generalizing budget with
  | nil =>
    cases budget with
    | zero => rfl
    | succ budget =>
      have value : denoted [last] = last.toNat := Nat.mod_eq_of_lt ended
      rw [List.nil_append, List.cons_append, number?, if_pos ended, if_pos (by simp), value]
  | cons b front ih =>
    cases budget with
    | zero => rfl
    | succ budget =>
      obtain ⟨here, later⟩ := List.forall_mem_cons.mp continued
      rw [List.cons_append, List.cons_append, number?, if_neg (Nat.not_lt.mpr here), ih budget later,
        denoted_cons, List.length_cons]
      by_cases few : (front ++ [last]).length ≤ budget
      · rw [if_pos few, if_pos (Nat.succ_le_succ few), Option.map_some]
      · rw [if_neg few, if_neg (fun le => few (Nat.le_of_succ_le_succ le)), Option.map_none]

/-! ### Words -/

/-- Ten groups at most are read, as the low 64 bits of what they denote. -/
theorem read_append {groups : Bytes} (number : IsNumber groups) (rest : Bytes) :
    read (groups ++ rest)
      = if groups.length ≤ maxGroups then some (denoted groups % bound) else none := by
  rw [read_eq, number?_append number]
  split <;> rfl

/-- More than 64 bits take ten groups. -/
theorem maxGroups_le_length {groups : Bytes} (large : bound ≤ denoted groups) :
    maxGroups ≤ groups.length := by
  by_contra few
  have small : denoted groups < bound :=
    calc denoted groups < 128 ^ groups.length := denoted_lt groups
      _ ≤ 128 ^ 9 := Nat.pow_le_pow_right (by decide) (Nat.le_of_lt_succ (Nat.lt_of_not_le few))
      _ < bound := by decide
  exact Nat.not_lt.mpr large small

/-- **What is read is what is denoted**, unless ten groups denote more than 64 bits. A number that is
read is the one that the first groups denote, or the low 64 bits of what ten groups denote; what does
not end is refused, and so is every number of more than 64 bits but one of ten groups. A number of 64
bits in ten groups at most is always read. -/
theorem read_exact (bs : Bytes) :
    (∀ n, read bs = some n → ∃ groups rest, bs = groups ++ rest ∧ IsNumber groups ∧
      (n = denoted groups ∨
        groups.length = maxGroups ∧ bound ≤ denoted groups ∧ n = denoted groups % bound)) ∧
    ((∀ b ∈ bs, 128 ≤ b.toNat) → read bs = none) ∧
    ∀ groups rest, bs = groups ++ rest → IsNumber groups →
      (bound ≤ denoted groups → groups.length ≠ maxGroups → read bs = none) ∧
      (denoted groups < bound → groups.length ≤ maxGroups → read bs = some (denoted groups)) := by
  have unended (continued : ∀ b ∈ bs, 128 ≤ b.toNat) : read bs = none := by
    rw [read_eq, number?_of_continued continued, Option.map_none]
  refine ⟨fun n told => ?_, unended, fun groups rest split number => ⟨fun large ne => ?_,
    fun small few => ?_⟩⟩
  · rcases exists_number bs with continued | ⟨groups, rest, rfl, number⟩
    · rw [unended continued] at told
      cases told
    · refine ⟨groups, rest, rfl, number, ?_⟩
      rw [read_append number] at told
      split at told
      · rename_i few
        obtain rfl := Option.some.inj told
        rcases Nat.lt_or_ge (denoted groups) bound with small | large
        · exact .inl (Nat.mod_eq_of_lt small)
        · exact .inr ⟨Nat.le_antisymm few (maxGroups_le_length large), large, rfl⟩
      · cases told
  · have many : ¬ groups.length ≤ maxGroups :=
      fun few => ne (Nat.le_antisymm few (maxGroups_le_length large))
    rw [split, read_append number, if_neg many]
  · rw [split, read_append number, if_pos few, Nat.mod_eq_of_lt small]

/-- The largest number of 64 bits is read from its ten groups. -/
theorem read_exact_largest :
    let groups : Bytes := [0xFF, 0xFF, 0xFF, 0xFF, 0xFF, 0xFF, 0xFF, 0xFF, 0xFF, 0x01]
    IsNumber groups ∧ read groups = some 18446744073709551615 := by
  intro groups
  have number : IsNumber groups :=
    ⟨[0xFF, 0xFF, 0xFF, 0xFF, 0xFF, 0xFF, 0xFF, 0xFF, 0xFF], 0x01, rfl, by simp, by decide⟩
  have value : denoted groups = 18446744073709551615 := by decide
  obtain ⟨-, -, told⟩ := read_exact groups
  have whole := (told groups [] (List.append_nil groups).symm number).2 (by rw [value]; decide)
    (by decide)
  exact ⟨number, value ▸ whole⟩

/-- Ten groups that denote `2 ^ 64 + 4` are read as four. -/
theorem read_ten_groups :
    let groups : Bytes := [0x84, 0x80, 0x80, 0x80, 0x80, 0x80, 0x80, 0x80, 0x80, 0x02]
    IsNumber groups ∧ denoted groups = 18446744073709551620 ∧ read groups = some 4 := by
  intro groups
  have number : IsNumber groups :=
    ⟨[0x84, 0x80, 0x80, 0x80, 0x80, 0x80, 0x80, 0x80, 0x80], 0x02, rfl, by simp, by decide⟩
  exact ⟨number, by decide, by decide⟩

end CertifiedCalls.Leb128
