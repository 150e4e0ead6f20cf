import CertifiedCalls.Canister.Base32
import CertifiedCalls.Proofs.Octets

/-! # Reading base 32
Every byte string is written in one way, and a text is read as a byte string exactly when it is what
that byte string is written as (`decode?_eq_some_iff`). So there is no second text for one byte string,
be it by digits to spare, bits left over at the end or characters that are no digits. -/

namespace CertifiedCalls

namespace Base32

/-! ### Digits -/

/-- The digit of a number is read back as that number. -/
theorem value?_digit {n : Nat} (small : n < 32) : value? (digit n) = some n := by
  have all : ∀ n : Fin 32, value? (digit n) = some n.val := by decide
  exact all ⟨n, small⟩

/-- What is read as a number is its digit. -/
theorem digit_of_value? {c : Char} {n : Nat} (read : value? c = some n) : n < 32 ∧ digit n = c := by
  rw [value?] at read
  split at read
  · rename_i letter
    obtain ⟨low, high⟩ := letter
    have low : 65 ≤ c.toNat := low
    have high : c.toNat ≤ 90 := high
    obtain rfl := Option.some.inj read
    rw [digit, if_pos (by omega), Nat.add_sub_cancel' low, Char.ofNat_toNat]
    exact ⟨by omega, rfl⟩
  · split at read
    · rename_i numeral
      obtain ⟨low, high⟩ := numeral
      have low : 50 ≤ c.toNat := low
      have high : c.toNat ≤ 55 := high
      obtain rfl := Option.some.inj read
      rw [digit, if_neg (by omega), Nat.add_sub_cancel' (by omega), Char.ofNat_toNat]
      exact ⟨by omega, rfl⟩
    · cases read

/-- There are as many digits as asked for. -/
@[simp] theorem length_digits (count n : Nat) : (digits count n).length = count := by
  induction count generalizing n with
  | zero => rfl
  | succ count ih => rw [digits, List.length_append, ih, List.length_singleton]

/-- Digits are digits of numbers. -/
theorem exists_of_mem_digits {count n : Nat} {c : Char} (mem : c ∈ digits count n) :
    ∃ d < 32, digit d = c := by
  induction count generalizing n with
  | zero => exact absurd mem List.not_mem_nil
  | succ count ih =>
    rcases List.mem_append.mp mem with front | last
    · exact ih front
    · exact ⟨n % 32, Nat.mod_lt _ (by decide), (List.mem_singleton.mp last).symm⟩

/-- One more digit makes room for numbers that are 32 times as large. -/
theorem room_succ (count : Nat) : 1 <<< (5 * (count + 1)) = (1 <<< (5 * count)) * 32 := by
  rw [Nat.mul_succ, Nat.shiftLeft_add, Nat.shiftLeft_eq _ 5]

/-- The number written by digits with one more at the end. -/
theorem number?_append_singleton (cs : List Char) (c : Char) :
    number? (cs ++ [c]) = (number? cs).bind fun n => (value? c).map (32 * n + ·) := by
  rw [number?, List.foldlM_append, ← number?]
  cases number? cs with
  | none => rfl
  | some n => cases h : value? c <;> simp [h]

/-- Characters write a number when they are its digits. -/
theorem number?_eq_some_iff {cs : List Char} {n : Nat} :
    number? cs = some n ↔ n < 1 <<< (5 * cs.length) ∧ digits cs.length n = cs := by
  induction cs using List.reverseRecOn generalizing n with
  | nil =>
    constructor
    · rintro ⟨⟩
      exact ⟨by decide, rfl⟩
    · rintro ⟨small, -⟩
      rw [Nat.lt_one_iff.mp small]
      rfl
  | append_singleton cs c ih =>
    rw [number?_append_singleton, List.length_append, List.length_singleton, room_succ, digits,
      List.append_singleton_inj]
    constructor
    · intro written
      obtain ⟨m, front, last⟩ := Option.bind_eq_some_iff.mp written
      obtain ⟨d, read, rfl⟩ := Option.map_eq_some_iff.mp last
      obtain ⟨fits, same⟩ := ih.mp front
      obtain ⟨small, rfl⟩ := digit_of_value? read
      rw [show (32 * m + d) / 32 = m by omega, show (32 * m + d) % 32 = d by omega]
      exact ⟨by omega, same, rfl⟩
    · rintro ⟨fits, front, rfl⟩
      rw [ih.mpr ⟨by omega, front⟩, Option.bind_some, value?_digit (Nat.mod_lt _ (by decide)),
        Option.map_some, Nat.div_add_mod]

/-! ### Blocks -/

/-- The bits that a block is filled up with are fewer than a digit has. -/
theorem room_digitCount (octets : Nat) :
    5 * digitCount octets / 8 = octets ∧
      8 * octets + (5 * digitCount octets - 8 * octets) = 5 * digitCount octets := by
  unfold digitCount
  omega

/-- A number that ends in zero bits is made by shifting. -/
theorem shiftLeft_shiftRight_of_mod {n bits : Nat} (zero : n % (1 <<< bits) = 0) :
    n >>> bits <<< bits = n := by
  rw [Nat.one_shiftLeft] at zero
  rw [Nat.shiftLeft_eq, Nat.shiftRight_eq_div_pow,
    Nat.div_mul_cancel (Nat.dvd_of_mod_eq_zero zero)]

/-- A number that fits with some bits fits without them when they are shifted out. -/
theorem shiftRight_lt {n room bits : Nat} (fits : n < 1 <<< (room + bits)) :
    n >>> bits < 1 <<< room := by
  rw [Nat.shiftLeft_add, Nat.shiftLeft_eq _ bits] at fits
  rw [Nat.shiftRight_eq_div_pow]
  exact Nat.div_lt_of_lt_mul (Nat.mul_comm .. ▸ fits)

/-- A number that fits still fits with some bits more when they are shifted in. -/
theorem shiftLeft_lt {n room bits : Nat} (fits : n < 1 <<< room) :
    n <<< bits < 1 <<< (room + bits) := by
  rw [Nat.shiftLeft_add, Nat.shiftLeft_eq n, Nat.shiftLeft_eq (1 <<< room)]
  exact Nat.mul_lt_mul_of_pos_right fits (Nat.two_pow_pos _)

/-- A block is written in as many digits as it takes. -/
theorem length_encodeBlock (block : Bytes) :
    (encodeBlock block).length = digitCount block.length :=
  length_digits ..

/-- A block is read back from its digits. -/
theorem decodeBlock?_encodeBlock (block : Bytes) : decodeBlock? (encodeBlock block) = some block := by
  obtain ⟨octets, room⟩ := room_digitCount block.length
  have number : number? (encodeBlock block)
      = some (block.toNat <<< (5 * digitCount block.length - 8 * block.length)) := by
    refine number?_eq_some_iff.mpr ⟨?_, by rw [length_encodeBlock, encodeBlock]⟩
    rw [length_encodeBlock, ← room, Nat.add_sub_cancel_left]
    exact shiftLeft_lt block.toNat_lt
  have filled : block.toNat <<< (5 * digitCount block.length - 8 * block.length)
      % (1 <<< (5 * digitCount block.length - 8 * block.length)) = 0 := by
    rw [Nat.shiftLeft_eq block.toNat, Nat.one_shiftLeft, Nat.mul_mod_left]
  rw [decodeBlock?, number, length_encodeBlock]
  dsimp only [Option.bind_eq_bind, Option.bind_some]
  rw [octets, if_pos ⟨rfl, filled⟩, Nat.shiftLeft_shiftRight, Bytes.bigEndian_toNat]

/-- What is read as a block is what the block is written as. -/
theorem encodeBlock_of_decodeBlock? {cs : List Char} {block : Bytes}
    (read : decodeBlock? cs = some block) : encodeBlock block = cs := by
  obtain ⟨n, number, rest⟩ := Option.bind_eq_some_iff.mp read
  obtain ⟨fits, written⟩ := number?_eq_some_iff.mp number
  dsimp only at rest
  split at rest
  · rename_i exact_fill
    obtain ⟨count, zero⟩ := exact_fill
    obtain rfl := Option.some.inj rest
    obtain ⟨-, room⟩ := room_digitCount (5 * cs.length / 8)
    rw [count] at room
    rw [← room] at fits
    rw [encodeBlock, Bytes.length_bigEndian, Bytes.toNat_bigEndian (shiftRight_lt fits), count]
    exact (shiftLeft_shiftRight_of_mod zero).symm ▸ written
  · cases rest

/-! ### Byte strings -/

/-- Nothing is written as nothing. -/
theorem encode_nil : encode [] = [] := by
  rw [encode, Bytes.blocks, dif_neg (fun h => h.2 rfl), List.flatMap_nil]

/-- The first five octets are written first. -/
theorem encode_of_ne_nil {bs : Bytes} (ne : bs ≠ []) :
    encode bs = encodeBlock (bs.take 5) ++ encode (bs.drop 5) := by
  rw [encode, Bytes.blocks, dif_pos ⟨by decide, ne⟩, List.flatMap_cons, ← encode]

/-- What holds of every digit holds of whatever is written. -/
theorem forall_mem_encode {p : Char → Prop} (each : ∀ d : Fin 32, p (digit d.val)) (bs : Bytes) :
    ∀ c ∈ encode bs, p c := by
  intro c mem
  obtain ⟨block, -, mem⟩ := List.mem_flatMap.mp mem
  obtain ⟨d, small, rfl⟩ := exists_of_mem_digits mem
  exact each ⟨d, small⟩

/-- The first five octets take the first eight digits. -/
theorem split_encode {bs : Bytes} (ne : bs ≠ []) :
    (encode bs).take 8 = encodeBlock (bs.take 5) ∧ (encode bs).drop 8 = encode (bs.drop 5) := by
  rw [encode_of_ne_nil ne]
  have length : (encodeBlock (bs.take 5)).length = digitCount (min 5 bs.length) := by
    rw [length_encodeBlock, List.length_take]
  rcases Nat.lt_or_ge bs.length 5 with short | long
  · -- A block that is not full is the last one.
    have few : (encodeBlock (bs.take 5)).length ≤ 8 := by
      rw [length, digitCount]
      omega
    rw [List.drop_eq_nil_of_le (Nat.le_of_lt short), encode_nil, List.append_nil]
    exact ⟨List.take_of_length_le few, List.drop_eq_nil_of_le few⟩
  · have full : (encodeBlock (bs.take 5)).length = 8 := by
      rw [length, Nat.min_eq_left long]
      rfl
    exact ⟨List.take_left' full, List.drop_left' full⟩

/-- Octets take digits. -/
theorem encode_ne_nil {bs : Bytes} (ne : bs ≠ []) : encode bs ≠ [] := by
  intro none
  have first := (split_encode ne).1
  have length := length_encodeBlock (bs.take 5)
  rw [← first, none, List.take_nil, List.length_take, digitCount] at length
  have := List.length_pos_iff.mpr ne
  simp at length
  omega

/-- A byte string is read back from its digits. -/
theorem decode?_encode (bs : Bytes) : decode? (encode bs) = some bs := by
  induction bs using Bytes.blocks.induct 5 with
  | case1 bs more ih =>
    obtain ⟨first, others⟩ := split_encode more.2
    rw [decode?, dif_neg (encode_ne_nil more.2), first, others, decodeBlock?_encodeBlock, ih]
    exact congrArg some (List.take_append_drop 5 bs)
  | case2 bs none =>
    obtain rfl : bs = [] := by
      by_contra ne
      exact none ⟨by decide, ne⟩
    rw [encode_nil, decode?, dif_pos rfl]

/-- Two byte strings are never written in the same way. -/
theorem encode_injective : Function.Injective encode := by
  intro a b same
  apply Option.some.inj
  rw [← decode?_encode a, same, decode?_encode]

/-- Digits are cut where octets are: the first eight digits write the first five octets, and fewer
digits write all of them. -/
theorem split_of_encodeBlock {cs : List Char} {block rest : Bytes} (digits : cs ≠ [])
    (first : encodeBlock block = cs.take 8) (others : encode rest = cs.drop 8) :
    (block ++ rest).take 5 = block ∧ (block ++ rest).drop 5 = rest ∧ block ≠ [] := by
  have length := length_encodeBlock block
  rw [first, List.length_take, digitCount] at length
  have some_digits := List.length_pos_iff.mpr digits
  have ne : block ≠ [] := List.length_pos_iff.mp (by omega)
  rcases Nat.lt_or_ge cs.length 8 with short | long
  · obtain rfl : rest = [] := by
      by_contra more
      exact encode_ne_nil more (others.trans (List.drop_eq_nil_of_le (Nat.le_of_lt short)))
    have few : block.length ≤ 5 := by omega
    rw [List.append_nil]
    exact ⟨List.take_of_length_le few, List.drop_eq_nil_of_le few, ne⟩
  · have full : block.length = 5 := by omega
    exact ⟨List.take_left' full, List.drop_left' full, ne⟩

/-- What is read as a byte string is what the byte string is written as. -/
theorem encode_of_decode? {cs : List Char} {bs : Bytes} (read : decode? cs = some bs) :
    encode bs = cs := by
  induction cs using decode?.induct generalizing bs with
  | case1 =>
    rw [decode?, dif_pos rfl] at read
    obtain rfl := Option.some.inj read
    exact encode_nil
  | case2 cs digits ih =>
    rw [decode?, dif_neg digits] at read
    obtain ⟨block, first, read⟩ := Option.bind_eq_some_iff.mp read
    obtain ⟨rest, others, read⟩ := Option.bind_eq_some_iff.mp read
    obtain rfl := Option.some.inj read
    have first := encodeBlock_of_decodeBlock? first
    have others := ih others
    obtain ⟨front, back, ne⟩ := split_of_encodeBlock digits first others
    rw [encode_of_ne_nil (List.append_ne_nil_of_left_ne_nil ne rest), front, back, first, others,
      List.take_append_drop]

/-- **A text is read as a byte string** exactly when it is what the byte string is written as. -/
theorem decode?_eq_some_iff {cs : List Char} {bs : Bytes} :
    decode? cs = some bs ↔ encode bs = cs := by
  constructor
  · exact encode_of_decode?
  · rintro rfl
    exact decode?_encode bs

end Base32

end CertifiedCalls
