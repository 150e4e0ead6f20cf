import CertifiedCalls.Proofs.Upload.Partition
import CertifiedCalls.Upload.Storage
import Mathlib.Algebra.Order.Floor.Div

/-! # Sound plans
A plan counts its chunks in 32 bits, and so is the size of a chunk: no position of a chunk leaves 64
bits, even where the file ends close to the last position there is. The ranges of the chunks **tile**
the file, and there is a plan for every file and every size of chunks but those for which there cannot
be one (`UploadPlan.make_sound`). -/

namespace CertifiedCalls

namespace ByteRange

/-- How many positions a range has. -/
def length (r : ByteRange) : Nat := r.stop.toNat - r.start.toNat

/-- Ranges **tile** the positions from one to another when none of them is empty, each starts where
the one before it stops, and the last stops at the end. -/
inductive Tiles : Nat → Nat → List ByteRange → Prop
  /-- No ranges tile no positions. -/
  | nil (position : Nat) : Tiles position position []
  /-- A range comes first. -/
  | cons {r : ByteRange} {rest : List ByteRange} {stop : Nat} (nonempty : r.start < r.stop)
    (later : Tiles r.stop.toNat stop rest) : Tiles r.start.toNat stop (r :: rest)

/-- A range may be added at the end. -/
theorem Tiles.concat {start stop : Nat} {ranges : List ByteRange} (h : Tiles start stop ranges)
    {r : ByteRange} (next : r.start.toNat = stop) (nonempty : r.start < r.stop) :
    Tiles start r.stop.toNat (ranges ++ [r]) := by
  induction h with
  | nil position => exact next ▸ .cons nonempty (.nil _)
  | cons first _ ih => exact .cons first (ih next)

/-- Ranges that lie between increasing positions tile them. -/
theorem tiles_map_range (range : Nat → ByteRange) (cut : Nat → Nat) {n : Nat}
    (each : ∀ i < n, (range i).start.toNat = cut i ∧ (range i).stop.toNat = cut (i + 1) ∧
      cut i < cut (i + 1)) :
    Tiles (cut 0) (cut n) ((List.range n).map range) := by
  induction n with
  | zero => exact .nil _
  | succ n ih =>
    obtain ⟨start, stop, increasing⟩ := each n (Nat.lt_succ_self n)
    have nonempty : (range n).start < (range n).stop := by
      rw [UInt64.lt_iff_toNat_lt, start, stop]
      exact increasing
    have earlier := ih fun i less => each i (Nat.lt_succ_of_lt less)
    rw [List.range_succ, List.map_append, List.map_singleton, ← stop]
    exact earlier.concat start nonempty

/-- The first ranges tile the front of the length, as long as their uncut ends fit a word. -/
theorem tiles_firsts {length size : UInt64} {n : Nat} (pos : 0 < size.toNat)
    (within : n ≤ rangeCount length.toNat size.toNat)
    (fits : n * size.toNat < 18446744073709551616) :
    Tiles 0 (min (n * size.toNat) length.toNat) (firsts length size n) := by
  have tiles := tiles_map_range (span length size)
    (fun i => min (i * size.toNat) length.toNat) (n := n) fun i less => by
      have inside := (lt_rangeCount_iff pos).mp (Nat.lt_of_lt_of_le less within)
      have uncut : (i + 1) * size.toNat ≤ n * size.toNat := Nat.mul_le_mul_right _ less
      rw [Nat.succ_mul] at uncut ⊢
      obtain ⟨start, stop⟩ := toNat_span length size (i := i) (by omega)
      exact ⟨by omega, stop, by omega⟩
  rwa [Nat.zero_mul, Nat.zero_min] at tiles

end ByteRange

/-- Ranges are counted by the quotient rounded up. -/
theorem rangeCount_eq_ceilDiv (length size : Nat) : rangeCount length size = length ⌈/⌉ size :=
  rfl

namespace UploadPlan

/-- The chunks of a plan are **sound**. -/
structure Sound (p : UploadPlan) : Prop where
  /-- The plan counts as many chunks as it takes to cover the file. -/
  count : p.chunkCount.toNat = p.totalSize.toNat ⌈/⌉ p.chunkSize.toNat
  /-- There are so many, with the indices from zero on, none of which wraps. -/
  indices : p.chunks.map (fun chunk => chunk.1.toNat) = List.range p.chunkCount.toNat
  /-- The partition succeeds, and their ranges are those that it finds. -/
  found : partition p.totalSize p.chunkSize.toUInt64 = .ok (p.chunks.map (·.2))
  /-- Neither the product nor the sum by which a range is found leaves 64 bits. -/
  fits : ∀ i < p.chunkCount.toNat, i * p.chunkSize.toNat ≤ 18446744073709551615 ∧
    i * p.chunkSize.toNat + p.chunkSize.toNat ≤ 18446744073709551615
  /-- The ranges tile the file. -/
  tiles : ByteRange.Tiles 0 p.totalSize.toNat (p.chunks.map (·.2))
  /-- All but the last have the size of a chunk. -/
  full : ∀ chunk ∈ p.chunks, chunk.1.toNat + 1 < p.chunkCount.toNat →
    chunk.2.length = p.chunkSize.toNat
  /-- The last is not longer. -/
  short : ∀ chunk ∈ p.chunks, chunk.2.length ≤ p.chunkSize.toNat

section Chunks

variable (p : UploadPlan)

/-- The uncut end of every range is a word. -/
theorem fits_of_lt {i : Nat} (within : i < p.chunkCount.toNat) :
    i * p.chunkSize.toNat + p.chunkSize.toNat < 18446744073709551616 := by
  rw [← p.counted] at within
  calc i * p.chunkSize.toNat + p.chunkSize.toNat
      = (i + 1) * p.chunkSize.toNat := (Nat.succ_mul _ _).symm
    _ ≤ rangeCount p.totalSize.toNat p.chunkSize.toNat * p.chunkSize.toNat :=
      Nat.mul_le_mul_right _ within
    _ < 18446744073709551616 := p.rangeCount_mul_lt

/-- A chunk has the index of its range, which lies between two multiples of the size, the second of
which is cut at the end of the file. -/
theorem exists_range_of_mem {chunk : UInt32 × ByteRange} (mem : chunk ∈ p.chunks) :
    ∃ i < p.chunkCount.toNat, chunk.1.toNat = i ∧
      chunk.2.length = min (i * p.chunkSize.toNat + p.chunkSize.toNat) p.totalSize.toNat
        - i * p.chunkSize.toNat := by
  rw [p.chunks_eq] at mem
  obtain ⟨i, here, rfl⟩ := List.mem_map.mp mem
  have within := List.mem_range.mp here
  have fits := p.fits_of_lt within
  obtain ⟨start, stop⟩ := ByteRange.toNat_span p.totalSize p.chunkSize.toUInt64 (i := i) (by
    rw [UInt32.toNat_toUInt64]
    omega)
  refine ⟨i, within, UInt32.toNat_ofNat_of_lt' (Nat.lt_trans within p.chunkCount.toNat_lt), ?_⟩
  rw [ByteRange.length, start, stop, UInt32.toNat_toUInt64]

/-- The indices of the chunks are the numbers of their ranges. -/
theorem indices_chunks :
    p.chunks.map (fun chunk => chunk.1.toNat) = List.range p.chunkCount.toNat := by
  rw [p.chunks_eq, List.map_map]
  refine (List.map_congr_left fun i mem => ?_).trans (List.map_id _)
  exact UInt32.toNat_ofNat_of_lt' (Nat.lt_trans (List.mem_range.mp mem) p.chunkCount.toNat_lt)

/-- The ranges of the chunks are those of the partition. -/
theorem partition_eq_chunks :
    partition p.totalSize p.chunkSize.toUInt64 = .ok (p.chunks.map (·.2)) := by
  rw [p.partition_eq_ok, p.chunks_eq, List.map_map]
  rfl

/-- The ranges of the chunks tile the file. -/
theorem tiles_chunks : ByteRange.Tiles 0 p.totalSize.toNat (p.chunks.map (·.2)) := by
  have tiles := @ByteRange.tiles_firsts p.totalSize p.chunkSize.toUInt64 p.chunkCount.toNat
  simp only [UInt32.toNat_toUInt64, ← p.counted,
    Nat.min_eq_right (length_le_rangeCount_mul p.chunkSize_pos)] at tiles
  rw [p.chunks_eq, List.map_map, ← p.counted]
  exact tiles p.chunkSize_pos (Nat.le_refl _) p.rangeCount_mul_lt

/-- **The chunks of a plan are sound.** -/
theorem sound : p.Sound := by
  refine ⟨p.counted.symm, p.indices_chunks, p.partition_eq_chunks, fun i within => ?_, p.tiles_chunks,
    fun chunk mem inner => ?_, fun chunk mem => ?_⟩
  · have := p.fits_of_lt within
    omega
  · obtain ⟨i, within, index, length⟩ := p.exists_range_of_mem mem
    -- The next chunk starts within the file, so this one is not cut.
    have next : (i + 1) * p.chunkSize.toNat < p.totalSize.toNat :=
      (lt_rangeCount_iff p.chunkSize_pos).mp (by rw [p.counted]; omega)
    rw [Nat.succ_mul] at next
    omega
  · obtain ⟨i, within, index, length⟩ := p.exists_range_of_mem mem
    omega

end Chunks

section Make

variable (hash : FileHash) (total : UInt64) (size : UInt32) (destination : CanisterId)
  (fileId : UInt64)

/-- There is no plan for chunks of size zero, nor for more chunks than 32 bits count. -/
theorem make_eq_error_iff {fault : PlanFault} :
    make hash total size destination fileId = .error fault ↔
      (size = 0 ∧ fault = .zeroChunkSize) ∨
      (size ≠ 0 ∧ 4294967295 < total.toNat ⌈/⌉ size.toNat ∧ fault = .tooManyChunks total size) := by
  rw [← rangeCount_eq_ceilDiv]
  unfold make
  by_cases zero : size = 0
  · simp [zero, eq_comm]
  · by_cases few : rangeCount total.toNat size.toNat < 4294967296
    · simp [zero, few, Nat.le_of_lt_succ few]
    · simp [zero, few, Nat.lt_of_lt_of_le (Nat.lt_succ_self _) (Nat.le_of_not_lt few), eq_comm]

/-- **Plans are sound up to the limits.** A plan is one for the file and the size of chunks that are
given, and its chunks are sound. Without a plan, chunks have size zero or are more than 32 bits count;
this is what an upload then fails for. -/
theorem make_sound :
    (∀ p, make hash total size destination fileId = .ok p →
      p.contentHash = hash ∧ p.totalSize = total ∧ p.chunkSize = size ∧
        p.destination = destination ∧ p.fileId = fileId ∧ p.Sound) ∧
    (∀ fault, make hash total size destination fileId = .error fault ↔
      (size = 0 ∧ fault = .zeroChunkSize) ∨
      (size ≠ 0 ∧ 4294967295 < total.toNat ⌈/⌉ size.toNat ∧ fault = .tooManyChunks total size)) ∧
    ∀ (u : Upload) (a : Allocation) (failure : UploadFailure), u.planFor a = .error failure ↔
      ∃ fault, make u.hash u.size a.chunkSize a.bucket a.fileId = .error fault ∧
        failure = .invalidPlan fault := by
  refine ⟨fun p made => ?_, fun fault => make_eq_error_iff .., fun u a failure => ?_⟩
  · obtain ⟨same, total, size, destination, fileId⟩ := make_eq_ok_iff.mp made
    exact ⟨same, total, size, destination, fileId, p.sound⟩
  · rw [Upload.planFor]
    cases make u.hash u.size a.chunkSize a.bucket a.fileId with
    | ok p => simp [Except.mapError]
    | error fault => simp [Except.mapError, eq_comm]

end Make

/-- The largest file in chunks of the largest size, which are as many as 32 bits count. -/
theorem make_sound_largest :
    let hash : FileHash := ⟨List.replicate 32 7, rfl⟩
    let destination : CanisterId := ⟨[0, 1], by decide⟩
    ∃ p, make hash 18446744065119617025 4294967295 destination 7 = .ok p ∧
      p.chunkCount = 4294967295 ∧ p.Sound := by
  intro hash destination
  have made : make hash 18446744065119617025 4294967295 destination 7 = .ok
      ⟨hash, 18446744065119617025, 4294967295, 4294967295, destination, 7, by decide, by decide⟩ :=
    make_eq_ok_iff.mpr ⟨rfl, rfl, rfl, rfl, rfl⟩
  obtain ⟨-, -, -, -, -, sound⟩ :=
    (make_sound hash 18446744065119617025 4294967295 destination 7).1 _ made
  exact ⟨_, made, rfl, sound⟩

end UploadPlan

end CertifiedCalls
