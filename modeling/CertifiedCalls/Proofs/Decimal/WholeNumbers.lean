import CertifiedCalls.Proofs.Decimal.Rounding

/-! # Doubles of whole numbers
The doubles around a whole number lie a **spacing** apart, which is one up to `2 ^ 53`. The double
nearest to an integer is the multiple of the spacing to which its magnitude is **rounded**, with the
integer's sign (`Binary64.value_ofInt`), so two integers have the same double exactly when they have
the same sign and are rounded to the same multiple (`Binary64.ofInt_eq_ofInt_iff`). -/

namespace CertifiedCalls

/-! ### Rounding to integers -/

/-- A quotient is rounded down or up. -/
theorem roundHalfEven_cases (num den : Nat) :
    roundHalfEven num den = num / den ∨ roundHalfEven num den = num / den + 1 := by
  unfold roundHalfEven
  simp only
  split_ifs <;> simp

/-- A quotient that is whole is rounded to itself. -/
theorem roundHalfEven_one (num : Nat) : roundHalfEven num 1 = num := by
  simp [roundHalfEven, Nat.mod_one]

namespace Binary64

/-- The **spacing** of the doubles around a whole number: a power of two that leaves 53 bits, and one
at least. -/
def spacing (n : Nat) : Nat := 2 ^ (n.log2 - 52)

/-- The multiple of the spacing to which a whole number is **rounded**: the nearest one, and half way
between two of them the even one. -/
def rounded (n : Nat) : Nat := roundHalfEven n (spacing n) * spacing n

/-- What has 53 bits is rounded to itself. -/
theorem rounded_of_lt {n : Nat} (small : n < 2 ^ 53) : rounded n = n := by
  have bits : n.log2 - 52 = 0 := by
    by_cases zero : n = 0
    · simp [zero]
    · have := (Nat.log2_lt zero).mpr small
      omega
  rw [rounded, spacing, bits, Nat.pow_zero, roundHalfEven_one, Nat.mul_one]

/-- The **significand** of the double of a whole number: the number in units of the last of 53
bits. -/
def significand (n : Nat) : Nat :=
  if 52 ≤ n.log2 then roundHalfEven n (spacing n) else n * 2 ^ (52 - n.log2)

/-- The significand stands for the number that is rounded. -/
theorem significand_mul (n : Nat) : significand n * 2 ^ n.log2 = rounded n * 2 ^ 52 := by
  unfold significand
  split_ifs with large
  · rw [rounded, spacing, Nat.mul_assoc, ← Nat.pow_add, Nat.sub_add_cancel large]
  · have small : n < 2 ^ 53 :=
      Nat.lt_of_lt_of_le Nat.lt_log2_self (Nat.pow_le_pow_right (by decide) (by omega))
    rw [rounded_of_lt small, Nat.mul_assoc, ← Nat.pow_add, Nat.sub_add_cancel (by omega)]

/-- The significand has its leading bit, and may have been rounded up to the next power of two. -/
theorem significand_range {n : Nat} (pos : 0 < n) :
    2 ^ 52 ≤ significand n ∧ significand n ≤ 2 ^ 53 := by
  have low : 2 ^ n.log2 ≤ n := Nat.log2_self_le (by omega)
  have high : n < 2 ^ (n.log2 + 1) := Nat.lt_log2_self
  unfold significand
  split_ifs with large
  · have units_low : 2 ^ 52 * spacing n = 2 ^ n.log2 := by
      rw [spacing, ← Nat.pow_add, Nat.add_sub_cancel' large]
    have units_high : 2 ^ 53 * spacing n = 2 ^ (n.log2 + 1) := by
      rw [Nat.pow_succ 2 n.log2, ← units_low]
      ring
    have spacing_pos : 0 < spacing n := Nat.pow_pos (by decide)
    have quotient_low : 2 ^ 52 ≤ n / spacing n :=
      (Nat.le_div_iff_mul_le spacing_pos).mpr (units_low ▸ low)
    have quotient_high : n / spacing n < 2 ^ 53 :=
      (Nat.div_lt_iff_lt_mul spacing_pos).mpr (units_high ▸ high)
    rcases roundHalfEven_cases n (spacing n) with down | up <;> omega
  · have units : 2 ^ n.log2 * 2 ^ (52 - n.log2) = 2 ^ 52 := by
      rw [← Nat.pow_add, Nat.add_sub_cancel' (by omega)]
    have units' : 2 ^ (n.log2 + 1) * 2 ^ (52 - n.log2) = 2 ^ 53 := by
      rw [Nat.pow_succ, Nat.mul_right_comm, units, ← Nat.pow_succ]
    have pow_pos : 0 < 2 ^ (52 - n.log2) := Nat.pow_pos (by decide)
    constructor
    · exact units ▸ Nat.mul_le_mul_right _ low
    · exact units' ▸ (Nat.mul_lt_mul_of_pos_right high pow_pos).le

/-! ### Words -/

/-- The unit of a whole number is that of its leading bit. -/
theorem unitOf_natCast {n : Nat} (pos : 0 < n) :
    BinaryFormat.double.unitOf n 1 = (n.log2 : Int) - 52 := by
  have leading : ((1 : Nat).log2 : Int) = 0 := by decide
  have bits : (BinaryFormat.double.fractionBits : Int) = 52 := rfl
  have least : BinaryFormat.double.leastUnit = -1074 := by decide
  have low : ¬ (n / (1 : Nat) : ℚ) < 2 ^ ((n.log2 : Int) - 52 + 52) := by
    rw [Nat.cast_one, div_one, Int.sub_add_cancel, zpow_natCast, not_lt]
    exact_mod_cast Nat.log2_self_le (by omega)
  have enough : ¬ (BinaryFormat.scaled n 1 ((n.log2 : Int) - 52)).1
      < (BinaryFormat.scaled n 1 ((n.log2 : Int) - 52)).2 <<< BinaryFormat.double.fractionBits :=
    fun less => low ((BinaryFormat.scaled_lt_iff n Nat.one_pos _ _).mp less)
  unfold BinaryFormat.unitOf
  simp only [leading, bits, sub_zero, if_neg enough, least]
  omega

/-- In its unit a whole number is rounded to its significand. -/
theorem roundHalfEven_scaled_natCast (n : Nat) :
    roundHalfEven (BinaryFormat.scaled n 1 ((n.log2 : Int) - 52)).1
      (BinaryFormat.scaled n 1 ((n.log2 : Int) - 52)).2 = significand n := by
  unfold BinaryFormat.scaled significand
  by_cases large : 52 ≤ n.log2
  · have units : ((n.log2 : Int) - 52).toNat = n.log2 - 52 := by omega
    rw [if_pos (by omega), if_pos large, units, Nat.one_shiftLeft, spacing]
  · have units : (-((n.log2 : Int) - 52)).toNat = 52 - n.log2 := by omega
    rw [if_neg (by omega), if_neg large, units, Nat.shiftLeft_eq, roundHalfEven_one]

/-- The word of a positive number of 64 bits counts its significand from its leading bit on. -/
theorem nearestWord_natCast {n : Nat} (pos : 0 < n) (small : n < 2 ^ 64) :
    BinaryFormat.double.nearestWord n 1 = (n.log2 + 1022) * 2 ^ 52 + significand n := by
  have constants : BinaryFormat.double.hidden = 2 ^ 52 ∧
      BinaryFormat.double.infinityWord = 2047 * 2 ^ 52 ∧
      BinaryFormat.double.leastUnit = -1074 := by decide
  obtain ⟨hidden, infinite, least⟩ := constants
  have bits : n.log2 < 64 := (Nat.log2_lt (by omega)).mpr small
  have units : ((n.log2 : Int) - 52 - -1074).toNat = n.log2 + 1022 := by omega
  have range := significand_range pos
  rw [BinaryFormat.double.nearestWord_eq pos, unitOf_natCast pos, roundHalfEven_scaled_natCast, hidden,
    infinite, least, units]
  omega

/-- Two words count the same significand, each from its own leading bit on, when they stand for the
same number. -/
theorem word_eq_iff {k l m n : Nat} (hm : 2 ^ 52 ≤ m ∧ m ≤ 2 ^ 53) (hn : 2 ^ 52 ≤ n ∧ n ≤ 2 ^ 53) :
    k * 2 ^ 52 + m = l * 2 ^ 52 + n ↔ m * 2 ^ k = n * 2 ^ l := by
  -- The leading bits are the same, or one significand was rounded up to the other's leading bit.
  have one_sided {k l m n : Nat} (hm : 2 ^ 52 ≤ m ∧ m ≤ 2 ^ 53) (hn : 2 ^ 52 ≤ n ∧ n ≤ 2 ^ 53)
      (le : k ≤ l) : k * 2 ^ 52 + m = l * 2 ^ 52 + n ↔ m * 2 ^ k = n * 2 ^ l := by
    obtain ⟨d, rfl⟩ := Nat.exists_eq_add_of_le le
    have cancel : m * 2 ^ k = n * 2 ^ (k + d) ↔ m = n * 2 ^ d := by
      rw [Nat.pow_add, Nat.mul_comm (2 ^ k), ← Nat.mul_assoc]
      exact Nat.mul_left_inj (Nat.pow_pos (by decide)).ne'
    rw [cancel]
    match d with
    | 0 => simp
    | 1 => omega
    | d + 2 =>
      have four : 4 ≤ 2 ^ (d + 2) := Nat.pow_le_pow_right (n := 2) (by decide) (by omega : 2 ≤ d + 2)
      have large : n * 4 ≤ n * 2 ^ (d + 2) := Nat.mul_le_mul_left n four
      omega
  rcases Nat.le_total k l with le | le
  · exact one_sided hm hn le
  · rw [eq_comm, one_sided hn hm le, eq_comm]

/-- Two numbers of 64 bits have the same nearest word when they are rounded to the same number. -/
theorem nearestWord_eq_iff {a b : Nat} (ha : a < 2 ^ 64) (hb : b < 2 ^ 64) :
    BinaryFormat.double.nearestWord a 1 = BinaryFormat.double.nearestWord b 1
      ↔ rounded a = rounded b := by
  have zero : BinaryFormat.double.nearestWord 0 1 = 0 ∧ rounded 0 = 0 := by decide
  have nonzero {n : Nat} (pos : 0 < n) (small : n < 2 ^ 64) :
      BinaryFormat.double.nearestWord n 1 ≠ 0 ∧ rounded n ≠ 0 := by
    have range := significand_range pos
    refine ⟨by rw [nearestWord_natCast pos small]; omega, fun none => ?_⟩
    have product := significand_mul n
    rw [none, Nat.zero_mul, Nat.mul_eq_zero] at product
    have power : 2 ^ n.log2 ≠ 0 := (Nat.pow_pos (by decide)).ne'
    omega
  rcases Nat.eq_zero_or_pos a with rfl | a_pos
  · rcases Nat.eq_zero_or_pos b with rfl | b_pos
    · simp
    · exact iff_of_false (fun e => (nonzero b_pos hb).1 (e ▸ zero.1))
        (fun e => (nonzero b_pos hb).2 (e ▸ zero.2))
  · rcases Nat.eq_zero_or_pos b with rfl | b_pos
    · exact iff_of_false (fun e => (nonzero a_pos ha).1 (e ▸ zero.1))
        (fun e => (nonzero a_pos ha).2 (e ▸ zero.2))
    · have words := word_eq_iff (k := a.log2) (l := b.log2) (significand_range a_pos)
        (significand_range b_pos)
      rw [significand_mul, significand_mul, Nat.mul_left_inj (by decide)] at words
      rw [nearestWord_natCast a_pos ha, nearestWord_natCast b_pos hb, ← words, Nat.add_mul,
        Nat.add_mul, Nat.add_right_comm, Nat.add_right_comm (b.log2 * _), Nat.add_left_inj]

/-- The nearest word of a number of 64 bits leaves room for the sign. -/
theorem nearestWord_lt {n : Nat} (small : n < 2 ^ 64) :
    BinaryFormat.double.nearestWord n 1 < 2 ^ 63 := by
  rcases Nat.eq_zero_or_pos n with rfl | pos
  · decide
  · have bits : n.log2 < 64 := (Nat.log2_lt (by omega)).mpr small
    have range := significand_range pos
    rw [nearestWord_natCast pos small]
    omega

/-- The nearest word of a number of 64 bits means what the number is rounded to. -/
theorem read_nearestWord {n : Nat} (small : n < 2 ^ 64) :
    ∃ m e, BinaryFormat.double.read (BinaryFormat.double.nearestWord n 1) = .finite false m e ∧
      (m : ℚ) * 2 ^ e = rounded n := by
  rcases Nat.eq_zero_or_pos n with rfl | pos
  · exact ⟨0, -1074, by decide, by simp [rounded_of_lt]⟩
  · have bits : n.log2 < 64 := (Nat.log2_lt (by omega)).mpr small
    have range := significand_range pos
    have constants : BinaryFormat.double.hidden = 2 ^ 52 ∧
        BinaryFormat.double.infinityWord = 2047 * 2 ^ 52 := by decide
    have word : min ((n.log2 + 1022) * BinaryFormat.double.hidden + significand n)
        BinaryFormat.double.infinityWord = BinaryFormat.double.nearestWord n 1 := by
      rw [constants.1, constants.2, nearestWord_natCast pos small]
      omega
    rcases BinaryFormat.read_units (k := n.log2 + 1022) (.inr range.1) range.2 with
      ⟨-, large, -⟩ | ⟨m, j, means, same⟩
    · omega
    · refine ⟨m, j - 1074, word ▸ means, ?_⟩
      have units : (m * 2 ^ j : ℚ) = rounded n * 2 ^ 1074 := by
        have product : (significand n * 2 ^ n.log2 : ℚ) = rounded n * 2 ^ 52 := by
          exact_mod_cast significand_mul n
        calc (m * 2 ^ j : ℚ) = significand n * 2 ^ (n.log2 + 1022) := by exact_mod_cast same
          _ = rounded n * 2 ^ 52 * 2 ^ 1022 := by rw [pow_add, ← mul_assoc, product]
          _ = rounded n * 2 ^ 1074 := by rw [mul_assoc, ← pow_add]
      rw [zpow_sub₀ two_ne_zero, zpow_natCast, ← mul_div_assoc, units]
      exact mul_div_cancel_right₀ _ (by positivity)

/-- The sign is read from its own bit. -/
theorem read_signWord_add {word m : Nat} {e : Int} (small : word < 2 ^ 63)
    (means : BinaryFormat.double.read word = .finite false m e) :
    BinaryFormat.double.read (BinaryFormat.double.signWord + word) = .finite true m e := by
  have constants : BinaryFormat.double.hidden = 2 ^ 52 ∧ BinaryFormat.double.topExponent = 2047 ∧
      BinaryFormat.double.signWord = 2 ^ 63 := by decide
  obtain ⟨hidden, top, sign⟩ := constants
  have fraction : (2 ^ 63 + word) % 2 ^ 52 = word % 2 ^ 52 := by omega
  have exponent : (2 ^ 63 + word) / 2 ^ 52 % (2047 + 1) = word / 2 ^ 52 % (2047 + 1) := by omega
  have negative : (2 ^ 63 + word) / 2 ^ 63 % 2 = 1 := by omega
  rw [BinaryFormat.read, hidden, top, sign] at means ⊢
  rw [fraction, exponent, negative]
  -- Past the sign both words are read the same way.
  split_ifs at means ⊢ <;> simp_all

/-! ### Integers -/

variable {a b : Int}

/-- The word of an integer is its sign and the nearest word of its magnitude. -/
theorem toNat_bits_ofInt (small : a.natAbs < 2 ^ 64) :
    (ofInt a).bits.toNat = (if a < 0 then 2 ^ 63 else 0)
      + BinaryFormat.double.nearestWord a.natAbs 1 := by
  have sign : BinaryFormat.double.signWord = 2 ^ 63 := by decide
  have word := nearestWord_lt small
  rw [ofInt, nearest, BinaryFormat.nearest, sign, UInt64.toNat_ofNat_of_lt']
  · simp
  · split_ifs <;> simp [UInt64.size] <;> omega

/-- **The double of an integer** has its sign and the magnitude that its own is rounded to. -/
theorem value_ofInt (small : a.natAbs < 2 ^ 64) :
    ∃ m e, (ofInt a).value = .finite (a < 0) m e ∧ (m : ℚ) * 2 ^ e = rounded a.natAbs := by
  have sign : BinaryFormat.double.signWord = 2 ^ 63 := by decide
  obtain ⟨m, e, means, magnitude⟩ := read_nearestWord small
  refine ⟨m, e, ?_, magnitude⟩
  rw [value, toNat_bits_ofInt small]
  by_cases negative : a < 0
  · rw [if_pos negative, ← sign, read_signWord_add (nearestWord_lt small) means]
    simp [negative]
  · rw [if_neg negative, Nat.zero_add, means]
    simp [negative]

/-- **Two integers have the same double** when they have the same sign and their magnitudes are
rounded to the same number. -/
theorem ofInt_eq_ofInt_iff (ha : a.natAbs < 2 ^ 64) (hb : b.natAbs < 2 ^ 64) :
    ofInt a = ofInt b ↔ (a < 0 ↔ b < 0) ∧ rounded a.natAbs = rounded b.natAbs := by
  have a_word := nearestWord_lt ha
  have b_word := nearestWord_lt hb
  have words : ofInt a = ofInt b ↔ (ofInt a).bits.toNat = (ofInt b).bits.toNat := by
    rw [UInt64.toNat_inj, Binary64.mk.injEq]
  rw [words, toNat_bits_ofInt ha, toNat_bits_ofInt hb, ← nearestWord_eq_iff ha hb]
  split_ifs with a_neg b_neg b_neg <;> simp [a_neg, b_neg] <;> omega

/-- What has more than 53 bits is rounded to what has. -/
theorem le_rounded {n : Nat} (large : 2 ^ 53 ≤ n) : 2 ^ 53 ≤ rounded n := by
  have bits : 53 ≤ n.log2 := (Nat.le_log2 (by omega)).mpr large
  have range := significand_range (by omega : 0 < n)
  obtain ⟨d, e⟩ := Nat.exists_eq_add_of_le bits
  have product := significand_mul n
  rw [e, Nat.pow_add, show 2 ^ 53 = 2 * 2 ^ 52 from rfl, ← Nat.mul_assoc, ← Nat.mul_assoc,
    Nat.mul_right_comm, Nat.mul_left_inj (by decide)] at product
  have power : 0 < 2 ^ d := Nat.pow_pos (by decide)
  have most : significand n * 2 ≤ significand n * 2 * 2 ^ d := Nat.le_mul_of_pos_right _ power
  omega

/-- **Only large integers share a double**: two that do are equal, or both have more than 53 bits. -/
theorem large_of_rounded_eq {m n : Nat} (same : rounded m = rounded n) :
    m = n ∨ 2 ^ 53 ≤ m ∧ 2 ^ 53 ≤ n := by
  rcases Nat.lt_or_ge m (2 ^ 53) with m_small | m_large
  · rcases Nat.lt_or_ge n (2 ^ 53) with n_small | n_large
    · rw [rounded_of_lt m_small, rounded_of_lt n_small] at same
      exact .inl same
    · have := le_rounded n_large
      rw [← same, rounded_of_lt m_small] at this
      omega
  · rcases Nat.lt_or_ge n (2 ^ 53) with n_small | n_large
    · have := le_rounded m_large
      rw [same, rounded_of_lt n_small] at this
      omega
    · exact .inr ⟨m_large, n_large⟩

end Binary64

end CertifiedCalls
