import CertifiedCalls.Proofs.Upload.Plans

/-! # The last range
The end of a range is found as the sum of its start and the size, and is cut at the length only then.
So the sum can overflow although the cut end is a word. It does so for the last range alone, and
exactly when the first multiple of the size that covers the length is no word: there is no partition
then, while every other one is exact (`partition_exact_or_overflows`). -/

namespace CertifiedCalls

variable {length size : UInt64} {n : Nat}

open ByteRange

/-! ### Where ranges lie -/

section Positions

variable (pos : 0 < size.toNat)
include pos

/-- There are not more ranges than positions. -/
theorem rangeCount_le_length : rangeCount length.toNat size.toNat ≤ length.toNat := by
  refine Nat.le_of_not_lt fun more => ?_
  have within := (lt_rangeCount_iff pos).mp more
  exact Nat.not_lt.mpr (Nat.le_mul_of_pos_right _ pos) within

/-- The ranges but the last do not go beyond the length. -/
theorem pred_rangeCount_mul_le :
    (rangeCount length.toNat size.toNat - 1) * size.toNat ≤ length.toNat := by
  by_cases none : rangeCount length.toNat size.toNat = 0
  · rw [none, Nat.zero_sub, Nat.zero_mul]
    exact Nat.zero_le _
  · exact Nat.le_of_lt ((lt_rangeCount_iff pos).mp (Nat.sub_one_lt none))

/-- Each of the first ranges has the size, unless it is cut at the length. -/
theorem exists_length_of_mem_firsts {r : ByteRange}
    (fits : n * size.toNat < 18446744073709551616) (mem : r ∈ firsts length size n) :
    ∃ i, (i + 1) * size.toNat ≤ n * size.toNat ∧
      r.length = min ((i + 1) * size.toNat) length.toNat - i * size.toNat := by
  obtain ⟨i, here, rfl⟩ := List.mem_map.mp mem
  have uncut : (i + 1) * size.toNat ≤ n * size.toNat :=
    Nat.mul_le_mul_right _ (List.mem_range.mp here)
  refine ⟨i, uncut, ?_⟩
  rw [Nat.succ_mul] at uncut ⊢
  obtain ⟨start, stop⟩ := toNat_span length size (i := i) (by omega)
  rw [ByteRange.length, start, stop]

/-- The first ranges have the size when the last of them ends within the length. -/
theorem length_of_mem_firsts (inside : n * size.toNat ≤ length.toNat) :
    ∀ r ∈ firsts length size n, r.length = size.toNat := by
  intro r mem
  obtain ⟨i, uncut, extent⟩ := exists_length_of_mem_firsts pos
    (Nat.lt_of_le_of_lt inside length.toNat_lt) mem
  rw [Nat.min_eq_left (Nat.le_trans uncut inside), Nat.succ_mul] at extent
  omega

end Positions

/-- The first ranges but the last are one less. -/
theorem dropLast_firsts (length size : UInt64) (n : Nat) :
    (firsts length size n).dropLast = firsts length size (n - 1) := by
  cases n with
  | zero => rfl
  | succ n =>
    rw [firsts, firsts, List.range_succ, List.map_append, List.map_singleton, List.dropLast_concat,
      Nat.add_sub_cancel]

/-! ### Exact partitions -/

/-- Ranges are an **exact** partition of a length. -/
structure ExactPartition (length size : UInt64) (ranges : List ByteRange) : Prop where
  /-- There are as many as it takes to cover the length. -/
  count : ranges.length = length.toNat ⌈/⌉ size.toNat
  /-- They tile the length. -/
  tiles : Tiles 0 length.toNat ranges
  /-- All but the last have the size. -/
  full : ∀ r ∈ ranges.dropLast, r.length = size.toNat
  /-- The last is not longer. -/
  short : ∀ r ∈ ranges, r.length ≤ size.toNat

/-- There is no partition of a length because the **last range overflows**. -/
structure LastOverflows (length size : UInt64) : Prop where
  /-- A sum overflows. -/
  overflow : partition length size = .error .addition
  /-- The sum by which the last range is found does. -/
  last : ofIndex length size (.ofNat (length.toNat ⌈/⌉ size.toNat - 1)) = .error .addition
  /-- All ranges in front of it are found, tile the positions up to its start, and have the size. -/
  front : ∃ ranges,
    (List.range (length.toNat ⌈/⌉ size.toNat - 1)).mapM (fun i => ofIndex length size (.ofNat i))
      = .ok ranges ∧
    Tiles 0 ((length.toNat ⌈/⌉ size.toNat - 1) * size.toNat) ranges ∧
    ∀ r ∈ ranges, r.length = size.toNat

section Exact

variable (pos : size ≠ 0)
include pos

/-- A size other than zero is a positive number. -/
theorem toNat_pos_of_ne_zero : 0 < size.toNat :=
  Nat.pos_of_ne_zero fun zero => pos (UInt64.toNat_inj.mp zero)

/-- A partition is exact when the first multiple of the size that covers the length is a word. -/
theorem exactPartition_of_fits
    (fits : rangeCount length.toNat size.toNat * size.toNat < 18446744073709551616) :
    ExactPartition length size (firsts length size (rangeCount length.toNat size.toNat)) := by
  have size_pos := toNat_pos_of_ne_zero pos
  refine ⟨?_, ?_, ?_, fun r mem => ?_⟩
  · rw [firsts, List.length_map, List.length_range, rangeCount_eq_ceilDiv]
  · have tiles := tiles_firsts size_pos (Nat.le_refl _) fits
    rwa [Nat.min_eq_right (length_le_rangeCount_mul size_pos)] at tiles
  · rw [dropLast_firsts]
    exact length_of_mem_firsts size_pos (pred_rangeCount_mul_le size_pos)
  · obtain ⟨i, -, extent⟩ := exists_length_of_mem_firsts size_pos fits mem
    rw [Nat.succ_mul] at extent
    omega

/-- When it is not, the last range overflows. -/
theorem lastOverflows
    (large : 18446744073709551616 ≤ rangeCount length.toNat size.toNat * size.toNat) :
    LastOverflows length size := by
  have size_pos := toNat_pos_of_ne_zero pos
  have bound := length.toNat_lt
  obtain ⟨n, count⟩ : ∃ n, rangeCount length.toNat size.toNat = n + 1 :=
    Nat.exists_eq_succ_of_ne_zero fun none => by simp [none] at large
  have inside : n * size.toNat < length.toNat :=
    (lt_rangeCount_iff size_pos).mp (count ▸ Nat.lt_succ_self n)
  have index_le : n ≤ n * size.toNat := Nat.le_mul_of_pos_right n size_pos
  have front := mapM_ofIndex length size_pos (Nat.lt_trans inside bound)
  have last : ofIndex length size (.ofNat n) = .error .addition := by
    rw [count, Nat.succ_mul] at large
    rw [ofIndex_ofNat length size (by omega) (by omega), if_neg (Nat.not_lt.mpr large)]
  have tiles : Tiles 0 (min (n * size.toNat) length.toNat) (firsts length size n) :=
    tiles_firsts size_pos (count ▸ Nat.le_succ n) (Nat.lt_trans inside bound)
  rw [Nat.min_eq_left inside.le] at tiles
  have pred : length.toNat ⌈/⌉ size.toNat - 1 = n := by
    rw [← rangeCount_eq_ceilDiv, count, Nat.add_sub_cancel]
  refine ⟨?_, pred ▸ last, pred ▸ ⟨_, front, tiles, length_of_mem_firsts size_pos inside.le⟩⟩
  -- The last range is looked for after all others have been found.
  rw [partition, if_neg pos, count, List.range_succ, List.mapM_append, front, List.mapM_cons, last]
  rfl

/-- **Only the last range of a partition can overflow.** There is an exact partition if and only if the
first multiple of the size that covers the length is a word, and otherwise none at all, because the
last range overflows. -/
theorem partition_exact_or_overflows :
    length.toNat ⌈/⌉ size.toNat ≤ 18446744073709551615 ∧
    ((∃ ranges, partition length size = .ok ranges ∧ ExactPartition length size ranges) ↔
      length.toNat ⌈/⌉ size.toNat * size.toNat ≤ 18446744073709551615) ∧
    (LastOverflows length size ↔
      18446744073709551615 < length.toNat ⌈/⌉ size.toNat * size.toNat) := by
  have few : rangeCount length.toNat size.toNat ≤ length.toNat :=
    rangeCount_le_length (toNat_pos_of_ne_zero pos)
  have bound := length.toNat_lt
  have found (fits : rangeCount length.toNat size.toNat * size.toNat ≤ 18446744073709551615) :=
    partition_eq_ok pos (Nat.lt_succ_of_le fits)
  rw [← rangeCount_eq_ceilDiv]
  refine ⟨by omega, ⟨fun ⟨ranges, exact_, _⟩ => ?_, fun fits => ?_⟩, fun last => ?_, lastOverflows pos⟩
  · refine Nat.le_of_not_lt fun large => ?_
    exact nomatch exact_.symm.trans (lastOverflows pos large).overflow
  · exact ⟨_, found fits, exactPartition_of_fits pos (Nat.lt_succ_of_le fits)⟩
  · refine Nat.lt_of_not_le fun fits => ?_
    exact nomatch (found fits).symm.trans last.overflow

end Exact

/-- The greatest length there is, in three ranges and in four: the three cover it without a rest, the
last of the four overflows. -/
theorem partition_exact_or_overflows_greatest :
    (6148914691236517205 : UInt64) ≠ 0 ∧
      (∃ ranges, partition 18446744073709551615 6148914691236517205 = .ok ranges ∧
        ExactPartition 18446744073709551615 6148914691236517205 ranges) ∧
    (4611686018427387904 : UInt64) ≠ 0 ∧
      LastOverflows 18446744073709551615 4611686018427387904 := by
  have third : (6148914691236517205 : UInt64) ≠ 0 := by decide
  have quarter : (4611686018427387904 : UInt64) ≠ 0 := by decide
  exact ⟨third, (partition_exact_or_overflows third).2.1.mpr (by decide),
    quarter, (partition_exact_or_overflows quarter).2.2.mpr (by decide)⟩

/-- The greatest length there is, in two ranges: there is no partition, for a sum overflows. -/
theorem not_exactPartition_of_greatest :
    partition 18446744073709551615 9223372036854775808 = .error .addition ∧
      ¬ ∃ ranges, partition 18446744073709551615 9223372036854775808 = .ok ranges ∧
        ExactPartition 18446744073709551615 9223372036854775808 ranges := by
  have overflow : partition 18446744073709551615 9223372036854775808 = .error .addition := rfl
  exact ⟨overflow, fun ⟨_, found, _⟩ => nomatch overflow.symm.trans found⟩

end CertifiedCalls
