/-! # Partitions
A content is cut into consecutive ranges of one size, the last of which may be shorter. Positions are
words of 64 bits. Arithmetic that leaves them is an **overflow**, and there is no partition then. -/

namespace CertifiedCalls

/-! ### Arithmetic on words -/

/-- An **overflow**: the result of an operation is no word. -/
inductive Overflow where
  /-- Of a sum. -/
  | addition
  /-- Of a product. -/
  | multiplication
deriving DecidableEq, Repr

/-- The wording of an overflow. -/
def Overflow.message : Overflow → String
  | .addition => "attempt to add with overflow"
  | .multiplication => "attempt to multiply with overflow"

/-- The sum of two words, if it is a word. -/
def checkedSum (a b : UInt64) : Except Overflow UInt64 :=
  if a.toBitVec.uaddOverflow b.toBitVec then .error .addition else .ok (a + b)

/-- The product of two words, if it is a word. -/
def checkedProduct (a b : UInt64) : Except Overflow UInt64 :=
  if a.toBitVec.umulOverflow b.toBitVec then .error .multiplication else .ok (a * b)

/-- A sum is checked against the number of words. -/
theorem checkedSum_eq (a b : UInt64) : checkedSum a b =
    if a.toNat + b.toNat < 18446744073709551616 then .ok (a + b) else .error .addition := by
  rw [checkedSum, BitVec.uaddOverflow, UInt64.toNat_toBitVec, UInt64.toNat_toBitVec]
  by_cases fits : a.toNat + b.toNat < 18446744073709551616
  · rw [if_pos fits, if_neg (by simpa using fits)]
  · rw [if_neg fits, if_pos (by simpa using fits)]

/-- So is a product. -/
theorem checkedProduct_eq (a b : UInt64) : checkedProduct a b =
    if a.toNat * b.toNat < 18446744073709551616 then .ok (a * b) else .error .multiplication := by
  rw [checkedProduct, BitVec.umulOverflow, UInt64.toNat_toBitVec, UInt64.toNat_toBitVec]
  by_cases fits : a.toNat * b.toNat < 18446744073709551616
  · rw [if_pos fits, if_neg (by simpa using fits)]
  · rw [if_neg fits, if_pos (by simpa using fits)]

/-! ### Ranges -/

/-- A **range** of positions, from the first up to but not including the last. -/
structure ByteRange where
  /-- The first position. -/
  start : UInt64
  /-- The position after the last one. -/
  stop : UInt64
deriving DecidableEq, Repr

namespace ByteRange

/-- The range of an index among ranges of one size, cut at the end of the content once its uncut end
has been found. -/
def ofIndex (length size index : UInt64) : Except Overflow ByteRange := do
  let start ← checkedProduct index size
  let stop ← checkedSum start size
  return ⟨start, if length < stop then length else stop⟩

/-- The part of a content that a range covers. -/
def slice {α : Type} (r : ByteRange) (content : List α) : List α :=
  (content.drop r.start.toNat).take (r.stop.toNat - r.start.toNat)

/-- The range of an index **in numbers**. -/
def span (length size : UInt64) (i : Nat) : ByteRange :=
  ⟨.ofNat (i * size.toNat), .ofNat (min (i * size.toNat + size.toNat) length.toNat)⟩

/-- A range in numbers starts and stops where they say, as long as its start is a word. -/
theorem toNat_span (length size : UInt64) {i : Nat}
    (product : i * size.toNat < 18446744073709551616) :
    (span length size i).start.toNat = i * size.toNat ∧
      (span length size i).stop.toNat = min (i * size.toNat + size.toNat) length.toNat :=
  ⟨UInt64.toNat_ofNat_of_lt' product,
    UInt64.toNat_ofNat_of_lt' (Nat.lt_of_le_of_lt (Nat.min_le_right ..) length.toNat_lt)⟩

/-- The smaller of two words is the smaller number. -/
theorem toNat_smaller (a b : UInt64) : (if b < a then b else a).toNat = min a.toNat b.toNat := by
  by_cases less : b < a
  · rw [if_pos less, Nat.min_eq_right (Nat.le_of_lt (UInt64.lt_iff_toNat_lt.mp less))]
  · rw [if_neg less, Nat.min_eq_left]
    exact Nat.le_of_not_lt fun small => less (UInt64.lt_iff_toNat_lt.mpr small)

/-- **The range of an index** whose start is a word is the one in numbers if its uncut end is a word
too. Otherwise the sum overflows that is to find this end. -/
theorem ofIndex_ofNat (length size : UInt64) {i : Nat} (index : i < 18446744073709551616)
    (product : i * size.toNat < 18446744073709551616) :
    ofIndex length size (.ofNat i) =
      if i * size.toNat + size.toNat < 18446744073709551616 then .ok (span length size i)
      else .error .addition := by
  have toNat_index : (UInt64.ofNat i).toNat = i := UInt64.toNat_ofNat_of_lt' index
  have toNat_start : (UInt64.ofNat i * size).toNat = i * size.toNat := by
    rw [UInt64.toNat_mul, toNat_index, Nat.mod_eq_of_lt product]
  have first : checkedProduct (.ofNat i) size = .ok (.ofNat i * size) := by
    rw [checkedProduct_eq, toNat_index, if_pos product]
  have second := checkedSum_eq (.ofNat i * size) size
  rw [toNat_start] at second
  by_cases fits : i * size.toNat + size.toNat < 18446744073709551616
  · rw [if_pos fits] at second ⊢
    obtain ⟨start, stop⟩ := toNat_span length size product
    have start : UInt64.ofNat i * size = (span length size i).start :=
      UInt64.toNat_inj.mp (toNat_start.trans start.symm)
    have stop : (if length < UInt64.ofNat i * size + size then length
        else UInt64.ofNat i * size + size) = (span length size i).stop := by
      refine UInt64.toNat_inj.mp ?_
      rw [toNat_smaller, stop, UInt64.toNat_add, toNat_start, Nat.mod_eq_of_lt fits]
    simp only [ofIndex, first, second, bind, Except.bind, pure, Except.pure, stop]
    rw [start]
  · rw [if_neg fits] at second ⊢
    simp only [ofIndex, first, second, bind, Except.bind]

end ByteRange

/-! ### Partitions -/

/-- How many ranges of a size it takes to cover a length. -/
def rangeCount (length size : Nat) : Nat := (length + size - 1) / size

/-- The ranges of one size that cover a length, unless one of them overflows. There are none of size
zero. -/
def partition (length size : UInt64) : Except Overflow (List ByteRange) :=
  if size = 0 then .ok []
  else (List.range (rangeCount length.toNat size.toNat)).mapM fun i =>
    ByteRange.ofIndex length size (UInt64.ofNat i)

/-- An index is that of a range when its position lies within the length. -/
theorem lt_rangeCount_iff {length size i : Nat} (pos : 0 < size) :
    i < rangeCount length size ↔ i * size < length := by
  rw [rangeCount, Nat.lt_iff_add_one_le, Nat.le_div_iff_mul_le pos, Nat.succ_mul]
  omega

/-- What is done for each member of a list succeeds when it does for each. -/
theorem mapM_eq_ok_map {ε α β : Type} {f : α → Except ε β} {g : α → β} {members : List α}
    (each : ∀ x ∈ members, f x = .ok (g x)) : members.mapM f = .ok (members.map g) := by
  induction members with
  | nil => rfl
  | cons x rest ih =>
    obtain ⟨first, others⟩ := List.forall_mem_cons.mp each
    rw [List.mapM_cons, first, ih others]
    rfl

namespace ByteRange

/-- The **first ranges** of one size in numbers, as many as are asked for. -/
def firsts (length size : UInt64) (n : Nat) : List ByteRange :=
  (List.range n).map (span length size)

/-- So many first ranges are found when their uncut ends are words. -/
theorem mapM_ofIndex (length : UInt64) {size : UInt64} {n : Nat} (pos : 0 < size.toNat)
    (fits : n * size.toNat < 18446744073709551616) :
    (List.range n).mapM (fun i => ofIndex length size (.ofNat i)) = .ok (firsts length size n) := by
  refine mapM_eq_ok_map fun i mem => ?_
  have uncut : (i + 1) * size.toNat ≤ n * size.toNat :=
    Nat.mul_le_mul_right _ (List.mem_range.mp mem)
  have index_le : i ≤ i * size.toNat := Nat.le_mul_of_pos_right i pos
  rw [Nat.succ_mul] at uncut
  rw [ofIndex_ofNat length size (by omega) (by omega), if_pos (by omega)]

end ByteRange

/-- A partition is found when the first multiple of the size that covers the length is a word. -/
theorem partition_eq_ok {length size : UInt64} (pos : size ≠ 0)
    (fits : rangeCount length.toNat size.toNat * size.toNat < 18446744073709551616) :
    partition length size =
      .ok (ByteRange.firsts length size (rangeCount length.toNat size.toNat)) := by
  have size_pos : 0 < size.toNat := Nat.pos_of_ne_zero fun zero => pos (UInt64.toNat_inj.mp zero)
  rw [partition, if_neg pos, ByteRange.mapM_ofIndex length size_pos fits]

end CertifiedCalls
