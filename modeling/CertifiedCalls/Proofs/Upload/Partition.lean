import CertifiedCalls.Upload.Plan

/-! # Exact partitions
The ranges of a partition cut out the chunks of a content that memory can hold (`slice_span`). Put
together in order, these are the content (`flatMap_chunkAt`). A plan has one for each of its indices
(`UploadPlan.chunks_eq`). -/

namespace CertifiedCalls

variable {α : Type}

/-- The **chunk** of a content at an index, among chunks of one size. -/
def chunkAt (content : List α) (size i : Nat) : List α :=
  content.extract (i * size) (min ((i + 1) * size) content.length)

/-! ### Contents -/

/-- A chunk is cut out at its position. -/
theorem chunkAt_eq (content : List α) (size i : Nat) :
    chunkAt content size i = (content.drop (i * size)).take size := by
  have rest : (content.drop (i * size)).length = content.length - i * size := List.length_drop
  rw [chunkAt, List.extract_eq_take_drop, Nat.succ_mul]
  by_cases inside : i * size + size ≤ content.length
  · rw [Nat.min_eq_left inside, Nat.add_sub_cancel_left]
  · rw [Nat.min_eq_right (by omega), List.take_of_length_le (Nat.le_of_eq rest),
      List.take_of_length_le (by omega)]

/-- The first chunks put together are the content up to the end of the last of them. -/
theorem flatMap_range_chunkAt (content : List α) (size n : Nat) :
    (List.range n).flatMap (chunkAt content size) = content.take (n * size) := by
  induction n with
  | zero => rw [List.range_zero, List.flatMap_nil, Nat.zero_mul, List.take_zero]
  | succ n ih =>
    rw [List.range_succ, List.flatMap_append, ih, List.flatMap_singleton, chunkAt_eq, Nat.succ_mul,
      List.take_add]

/-- The ranges cover the length. -/
theorem length_le_rangeCount_mul {length size : Nat} (pos : 0 < size) :
    length ≤ rangeCount length size * size :=
  Nat.le_of_not_lt fun less => Nat.lt_irrefl _ ((lt_rangeCount_iff pos).mpr less)

/-- **All chunks put together** in order are the content. -/
theorem flatMap_chunkAt (content : List α) {size : Nat} (pos : 0 < size) :
    (List.range (rangeCount content.length size)).flatMap (chunkAt content size) = content := by
  rw [flatMap_range_chunkAt]
  exact List.take_of_length_le (length_le_rangeCount_mul pos)

/-! ### Ranges -/

/-- A range that starts within a content cuts out the chunk of its index. -/
theorem slice_span {content : List α} {size : UInt64} {i : Nat}
    (short : content.length < 9223372036854775808) (within : i * size.toNat < content.length) :
    (ByteRange.span (.ofNat content.length) size i).slice content
      = chunkAt content size.toNat i := by
  have length : (UInt64.ofNat content.length).toNat = content.length :=
    UInt64.toNat_ofNat_of_lt' (show content.length < 18446744073709551616 by omega)
  obtain ⟨start, stop⟩ := ByteRange.toNat_span (.ofNat content.length) size (i := i) (by omega)
  rw [ByteRange.slice, chunkAt, List.extract_eq_take_drop, start, stop, length, Nat.succ_mul]

/-! ### Plans -/

namespace UploadPlan

variable {hash : FileHash} {total : UInt64} {size : UInt32} {destination : CanisterId}
  {fileId : UInt64} {p : UploadPlan}

/-- Plans for the same file in the same chunks and place are the same. -/
theorem eq_of_same {q : UploadPlan} (contentHash : p.contentHash = q.contentHash)
    (totalSize : p.totalSize = q.totalSize) (chunkSize : p.chunkSize = q.chunkSize)
    (destination : p.destination = q.destination) (fileId : p.fileId = q.fileId) : p = q := by
  have count : p.chunkCount = q.chunkCount := by
    rw [← UInt32.toNat_inj, ← p.counted, ← q.counted, totalSize, chunkSize]
  cases p
  cases q
  simp_all

/-- What there is a plan for is told by its parts. -/
theorem make_eq_ok_iff :
    make hash total size destination fileId = .ok p ↔
      p.contentHash = hash ∧ p.totalSize = total ∧ p.chunkSize = size ∧
        p.destination = destination ∧ p.fileId = fileId := by
  constructor
  · intro made
    dsimp only [make] at made
    split at made
    · exact nomatch made
    · split at made
      · obtain rfl := Except.ok.inj made
        exact ⟨rfl, rfl, rfl, rfl, rfl⟩
      · exact nomatch made
  · rintro ⟨rfl, rfl, rfl, rfl, rfl⟩
    have few : rangeCount p.totalSize.toNat p.chunkSize.toNat < 4294967296 :=
      p.counted ▸ p.chunkCount.toNat_lt
    unfold make
    rw [dif_neg p.sized, dif_pos few]
    exact congrArg _ (eq_of_same rfl rfl rfl rfl rfl)

/-- There is a plan exactly when chunks have a size and 32 bits count them. -/
theorem exists_make_eq_ok_iff :
    (∃ p, make hash total size destination fileId = .ok p) ↔
      size ≠ 0 ∧ rangeCount total.toNat size.toNat < 4294967296 := by
  constructor
  · rintro ⟨p, made⟩
    obtain ⟨-, rfl, rfl, -, -⟩ := make_eq_ok_iff.mp made
    exact ⟨p.sized, p.counted ▸ p.chunkCount.toNat_lt⟩
  · rintro ⟨sized, few⟩
    exact ⟨_, by unfold make; rw [dif_neg sized, dif_pos few]⟩

/-- The chunks of a plan are those of all indices in order. -/
theorem chunks_eq (p : UploadPlan) :
    p.chunks = (List.range p.chunkCount.toNat).map fun i =>
      (.ofNat i, .span p.totalSize p.chunkSize.toUInt64 i) := by
  have ranges : p.ranges = ByteRange.firsts p.totalSize p.chunkSize.toUInt64 p.chunkCount.toNat :=
    Except.ok.inj (p.partition_eq_ranges.symm.trans p.partition_eq_ok)
  rw [chunks, ranges, ByteRange.firsts]
  -- The counter that goes with the ranges is 32 bits wide, so both sides are compared index by index.
  apply List.ext_getElem?
  intro i
  simp only [List.getElem?_map, List.getElem?_zipIdx]
  by_cases within : i < p.chunkCount.toNat
  · rw [List.getElem?_range within, Nat.zero_add]
    rfl
  · rw [List.getElem?_eq_none (by rw [List.length_range]; exact Nat.le_of_not_lt within)]
    rfl

/-- There are as many as are counted. -/
theorem length_chunks (p : UploadPlan) : p.chunks.length = p.chunkCount.toNat := by
  rw [p.chunks_eq, List.length_map, List.length_range]

end UploadPlan

end CertifiedCalls
