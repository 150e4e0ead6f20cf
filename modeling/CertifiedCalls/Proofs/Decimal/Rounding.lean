import Mathlib
import CertifiedCalls.Proofs.Decimal.Width

/-! # Correct rounding
The double nearest to a ratio is a multiple of a unit that is no more than half a unit away from it,
where the unit leaves 53 bits for the multiple (`Binary64.nearest_nearest`). -/

namespace CertifiedCalls

/-! ### Halves -/

/-- Rounding to an integer moves a quotient by half a unit at most. -/
theorem roundHalfEven_near (num : Nat) {den : Nat} (pos : 0 < den) :
    2 * (roundHalfEven num den * den) ≤ 2 * num + den ∧
      2 * num ≤ 2 * (roundHalfEven num den * den) + den := by
  have split := Nat.div_add_mod num den
  have rest := Nat.mod_lt num pos
  rw [Nat.mul_comm] at split
  unfold roundHalfEven
  generalize num / den = q at *
  generalize num % den = r at *
  simp only
  split_ifs <;> (try rw [Nat.add_mul, Nat.one_mul]) <;> omega

namespace BinaryFormat

/-! ### Units -/

/-- A ratio, counted in units of a power of two. -/
def scaled (num den : Nat) (unit : Int) : Nat × Nat :=
  if 0 ≤ unit then (num, den <<< unit.toNat) else (num <<< (-unit).toNat, den)

/-- Counting in units divides a ratio by the unit. -/
theorem scaled_spec (num : Nat) {den : Nat} (pos : 0 < den) (unit : Int) :
    0 < (scaled num den unit).2 ∧
      ((scaled num den unit).1 : ℚ) / (scaled num den unit).2 = num / den / 2 ^ unit := by
  have den_pos : (0 : ℚ) < den := Nat.cast_pos.mpr pos
  rw [scaled]
  split_ifs with sign
  · obtain ⟨k, rfl⟩ := Int.eq_ofNat_of_zero_le sign
    refine ⟨by simpa [Nat.shiftLeft_eq] using pos, ?_⟩
    simp only [Int.toNat_natCast, Nat.shiftLeft_eq, Nat.cast_mul, Nat.cast_pow, Nat.cast_ofNat,
      zpow_natCast, div_div]
  · obtain ⟨k, rfl⟩ := Int.exists_eq_neg_ofNat (Int.le_of_not_le sign)
    refine ⟨pos, ?_⟩
    simp only [neg_neg, Int.toNat_natCast, Nat.shiftLeft_eq, Nat.cast_mul, Nat.cast_pow,
      Nat.cast_ofNat, zpow_neg, zpow_natCast, div_inv_eq_mul]
    ring

/-- Rounding to units moves a ratio by half a unit at most. -/
theorem roundHalfEven_scaled (num : Nat) {den : Nat} (pos : 0 < den) (unit : Int) :
    (roundHalfEven (scaled num den unit).1 (scaled num den unit).2 : ℚ) * 2 ^ unit
        ≤ num / den + 2 ^ unit / 2 ∧
      (num / den : ℚ) ≤
        roundHalfEven (scaled num den unit).1 (scaled num den unit).2 * 2 ^ unit + 2 ^ unit / 2 := by
  obtain ⟨scaled_pos, ratio⟩ := scaled_spec num pos unit
  have near := roundHalfEven_near (scaled num den unit).1 scaled_pos
  generalize scaled num den unit = pair at *
  generalize roundHalfEven pair.1 pair.2 = n at *
  obtain ⟨below, above⟩ := near
  have unit_pos : (0 : ℚ) < 2 ^ unit := zpow_pos two_pos _
  have pair_pos : (0 : ℚ) < pair.2 := Nat.cast_pos.mpr scaled_pos
  have below' : (2 : ℚ) * (n * pair.2) ≤ 2 * pair.1 + pair.2 := by exact_mod_cast below
  have above' : (2 : ℚ) * pair.1 ≤ 2 * (n * pair.2) + pair.2 := by exact_mod_cast above
  have value : (num / den : ℚ) = pair.1 / pair.2 * 2 ^ unit := by
    rw [ratio, div_mul_cancel₀ _ (ne_of_gt unit_pos)]
  have quotient : (n : ℚ) ≤ pair.1 / pair.2 + 1 / 2 ∧ (pair.1 / pair.2 : ℚ) ≤ n + 1 / 2 := by
    constructor
    · rw [← sub_le_iff_le_add, le_div_iff₀ pair_pos]
      linarith
    · rw [div_le_iff₀ pair_pos]
      linarith
  rw [value]
  constructor <;> nlinarith [quotient.1, quotient.2]

/-- The unit that leaves as many bits as the format has for what is counted in it. -/
def unitOf (f : BinaryFormat) (num den : Nat) : Int :=
  let guess : Int := (num.log2 : Int) - den.log2 - f.fractionBits
  max (if (scaled num den guess).1 < (scaled num den guess).2 <<< f.fractionBits then guess - 1
    else guess) f.leastUnit

/-- The nearest word counts units. -/
theorem nearestWord_eq (f : BinaryFormat) {num : Nat} (pos : 0 < num) (den : Nat) :
    f.nearestWord num den = min ((f.unitOf num den - f.leastUnit).toNat * f.hidden
      + roundHalfEven (scaled num den (f.unitOf num den)).1 (scaled num den (f.unitOf num den)).2)
      f.infinityWord := by
  rw [nearestWord, if_neg (Nat.ne_of_gt pos)]
  rfl

/-- The leading bits of two numbers leave two places for that of their quotient. -/
theorem zpow_log2_le_div_lt {num den : Nat} (num_pos : 0 < num) (den_pos : 0 < den) :
    (2 : ℚ) ^ ((num.log2 : Int) - den.log2 - 1) ≤ num / den ∧
      (num / den : ℚ) < 2 ^ ((num.log2 : Int) - den.log2 + 1) := by
  have two_ne : (2 : ℚ) ≠ 0 := two_ne_zero
  have den_pos' : (0 : ℚ) < den := Nat.cast_pos.mpr den_pos
  have num_low : ((2 : ℚ) ^ num.log2) ≤ num := by
    exact_mod_cast Nat.log2_self_le (Nat.ne_of_gt num_pos)
  have num_high : (num : ℚ) < 2 ^ (num.log2 + 1) := by exact_mod_cast Nat.lt_log2_self
  have den_low : ((2 : ℚ) ^ den.log2) ≤ den := by
    exact_mod_cast Nat.log2_self_le (Nat.ne_of_gt den_pos)
  have den_high : (den : ℚ) < 2 ^ (den.log2 + 1) := by exact_mod_cast Nat.lt_log2_self
  constructor
  · rw [le_div_iff₀ den_pos']
    calc (2 : ℚ) ^ ((num.log2 : Int) - den.log2 - 1) * den
        ≤ 2 ^ ((num.log2 : Int) - den.log2 - 1) * 2 ^ (den.log2 + 1) :=
          mul_le_mul_of_nonneg_left den_high.le (zpow_pos two_pos _).le
      _ = 2 ^ num.log2 := by
          rw [← zpow_natCast, ← zpow_natCast, ← zpow_add₀ two_ne]
          congr 1
          push_cast
          omega
      _ ≤ num := num_low
  · rw [div_lt_iff₀ den_pos']
    calc (num : ℚ) < 2 ^ (num.log2 + 1) := num_high
      _ = 2 ^ ((num.log2 : Int) - den.log2 + 1) * 2 ^ den.log2 := by
          rw [← zpow_natCast, ← zpow_natCast, ← zpow_add₀ two_ne]
          congr 1
          push_cast
          omega
      _ ≤ 2 ^ ((num.log2 : Int) - den.log2 + 1) * den :=
          mul_le_mul_of_nonneg_left den_low (zpow_pos two_pos _).le

/-- Counting in units tells whether a ratio is less than so many of them. -/
theorem scaled_lt_iff (num : Nat) {den : Nat} (den_pos : 0 < den) (unit : Int) (bits : Nat) :
    (scaled num den unit).1 < (scaled num den unit).2 <<< bits ↔
      (num / den : ℚ) < 2 ^ (unit + bits) := by
  obtain ⟨scaled_pos, ratio⟩ := scaled_spec num den_pos unit
  have pos : (0 : ℚ) < (scaled num den unit).2 := Nat.cast_pos.mpr scaled_pos
  rw [Nat.shiftLeft_eq, ← Nat.cast_lt (α := ℚ), Nat.cast_mul, mul_comm, ← div_lt_iff₀ pos, ratio,
    div_lt_iff₀ (zpow_pos two_pos _), zpow_add₀ two_ne_zero, Nat.cast_pow, zpow_natCast, mul_comm]
  rfl

/-- A unit **suits** a ratio when it is the least of the format or that of the ratio's leading bit. -/
def Suits (f : BinaryFormat) (x : ℚ) (unit : Int) : Prop :=
  f.leastUnit ≤ unit ∧ (unit = f.leastUnit ∨ (2 : ℚ) ^ (unit + f.fractionBits) ≤ x) ∧
    x < 2 ^ (unit + f.fractionBits + 1)

/-- The unit of the leading bit suits, unless it is less than the least one, which does then. -/
theorem suits_max (f : BinaryFormat) {x : ℚ} {unit : Int}
    (low : (2 : ℚ) ^ (unit + f.fractionBits) ≤ x)
    (high : x < 2 ^ (unit + f.fractionBits + 1)) : f.Suits x (max unit f.leastUnit) := by
  refine ⟨le_max_right _ _, ?_, lt_of_lt_of_le high ?_⟩
  · rcases le_total unit f.leastUnit with le | le
    · exact .inl (max_eq_right le)
    · exact .inr (by rwa [max_eq_left le])
  · exact zpow_le_zpow_right₀ one_le_two (by have := le_max_left unit f.leastUnit; omega)

/-- The unit of a ratio suits it. -/
theorem suits_unitOf (f : BinaryFormat) {num den : Nat} (num_pos : 0 < num) (den_pos : 0 < den) :
    f.Suits (num / den) (f.unitOf num den) := by
  obtain ⟨low, high⟩ := zpow_log2_le_div_lt num_pos den_pos
  rw [unitOf]
  simp only [scaled_lt_iff num den_pos]
  set guess : Int := (num.log2 : Int) - den.log2 - f.fractionBits with guess_eq
  have top : (num.log2 : Int) - den.log2 = guess + f.fractionBits := by omega
  rw [top] at low high
  split_ifs with smaller
  · refine f.suits_max ?_ ?_
    · rwa [sub_add_eq_add_sub]
    · rwa [sub_add_eq_add_sub, sub_add_cancel]
  · exact f.suits_max (not_lt.mp smaller) high

end BinaryFormat

/-! ### Doubles -/

/-- A rational number **rounds** to so many units when they are next to it and the unit leaves 53 bits
for their number. -/
structure Rounds (x : ℚ) (unit : Int) (n : Nat) : Prop where
  /-- The unit is not less than the least one. -/
  least : -1074 ≤ unit
  /-- A unit that is not the least one leaves no more than 53 bits. -/
  low : unit = -1074 ∨ (2 : ℚ) ^ (unit + 52) ≤ x
  /-- It leaves no fewer. -/
  high : x < (2 : ℚ) ^ (unit + 53)
  /-- The units are at most half a unit above the number. -/
  below : n * (2 : ℚ) ^ unit ≤ x + 2 ^ unit / 2
  /-- They are at most half a unit below it. -/
  above : x ≤ n * (2 : ℚ) ^ unit + 2 ^ unit / 2

/-- The nearest word counts the units to which a ratio rounds. -/
theorem BinaryFormat.rounds_nearestWord {num den : Nat} (num_pos : 0 < num) (den_pos : 0 < den) :
    ∃ unit n, Rounds (num / den) unit n ∧
      double.nearestWord num den
        = min ((unit + 1074).toNat * double.hidden + n) double.infinityWord := by
  obtain ⟨least, low, high⟩ := double.suits_unitOf num_pos den_pos
  obtain ⟨below, above⟩ := roundHalfEven_scaled num den_pos (double.unitOf num den)
  have least_eq : double.leastUnit = -1074 := by decide
  rw [least_eq] at least low
  refine ⟨double.unitOf num den, _, ⟨least, low, ?_, below, above⟩, ?_⟩
  · rwa [add_assoc] at high
  · rw [double.nearestWord_eq num_pos, least_eq, sub_neg_eq_add]

namespace Rounds

variable {x : ℚ} {unit : Int} {n : Nat}

/-- A unit is positive. -/
theorem unit_pos (unit : Int) : (0 : ℚ) < 2 ^ unit := zpow_pos two_pos _

/-- A number that is too small for a unit has a smaller one. -/
theorem unit_lt {k : Int} (h : Rounds x unit n) (least : -1074 < k) (less : x < (2 : ℚ) ^ (k + 52)) :
    unit < k := by
  rcases h.low with rfl | low
  · exact least
  · exact Int.lt_of_add_lt_add_right
      ((zpow_lt_zpow_iff_right₀ (one_lt_two (α := ℚ))).mp (low.trans_lt less))

/-- There are no more units than have 53 bits, or the next power of two. -/
theorem le_bound (h : Rounds x unit n) : n ≤ 2 ^ 53 := by
  have high := h.high
  have below := h.below
  rw [zpow_add₀ two_ne_zero] at high
  have : (n : ℚ) * 2 ^ unit < (2 ^ 53 + 1) * 2 ^ unit := by
    have := unit_pos unit
    norm_num at high ⊢
    linarith
  have less := lt_of_mul_lt_mul_right this (unit_pos unit).le
  exact Nat.lt_succ_iff.mp (by exact_mod_cast less)

/-- There are no fewer than have 53 bits, unless the unit is the least one. -/
theorem bound_le (h : Rounds x unit n) : unit = -1074 ∨ 2 ^ 52 ≤ n := by
  refine h.low.imp_right fun low => ?_
  have above := h.above
  rw [zpow_add₀ two_ne_zero] at low
  have : (2 ^ 52 : ℚ) * 2 ^ unit < (n + 1) * 2 ^ unit := by
    have := unit_pos unit
    norm_num at low ⊢
    linarith
  have less := lt_of_mul_lt_mul_right this (unit_pos unit).le
  exact Nat.lt_succ_iff.mp (by exact_mod_cast less)

end Rounds

/-- What a positive finite word means. -/
theorem BinaryFormat.read_of_lt {word : Nat} (finite : word < 2047 * 2 ^ 52) :
    double.read word = if word < 2 ^ 52 then .finite false word (-1074)
      else .finite false (2 ^ 52 + word % 2 ^ 52) ((word / 2 ^ 52 : Nat) - 1075) := by
  have constants : double.hidden = 2 ^ 52 ∧ double.topExponent = 2047 ∧ double.signWord = 2 ^ 63 ∧
      double.leastUnit = -1074 := by decide
  obtain ⟨hidden, top, sign, least⟩ := constants
  have exponent : word / 2 ^ 52 % (2047 + 1) = word / 2 ^ 52 :=
    Nat.mod_eq_of_lt (by omega)
  have positive : word / 2 ^ 63 % 2 = 0 := by omega
  rw [read, hidden, top, sign, least, exponent, positive]
  by_cases small : word < 2 ^ 52
  · have zero : word / 2 ^ 52 = 0 := by omega
    rw [if_pos small, zero, if_neg (by decide), if_pos rfl, Nat.mod_eq_of_lt small]
    rfl
  · have nonzero : word / 2 ^ 52 ≠ 0 := by omega
    have below_top : word / 2 ^ 52 ≠ 2047 := by omega
    have unit : (-1074 : Int) + (word / 2 ^ 52 - 1 : Nat) = (word / 2 ^ 52 : Nat) - 1075 := by omega
    rw [if_neg small, if_neg below_top, if_neg nonzero, unit]
    rfl

/-- The word that counts so many units means their sum, or is infinite when that is too much. -/
theorem BinaryFormat.read_units {k n : Nat} (full : k = 0 ∨ 2 ^ 52 ≤ n) (bound : n ≤ 2 ^ 53) :
    (double.read (min (k * double.hidden + n) double.infinityWord) = .infinite false ∧
        2045 ≤ k ∧ 2 ^ 52 ≤ n) ∨
      ∃ m j : Nat, double.read (min (k * double.hidden + n) double.infinityWord)
        = .finite false m (j - 1074 : Int) ∧ m * 2 ^ j = n * 2 ^ k := by
  have constants : double.hidden = 2 ^ 52 ∧ double.infinityWord = 2047 * 2 ^ 52 := by decide
  rw [constants.1, constants.2]
  by_cases large : 2047 * 2 ^ 52 ≤ k * 2 ^ 52 + n
  · refine .inl ⟨by rw [Nat.min_eq_right large]; decide, by omega, full.resolve_left (by omega)⟩
  · have finite := Nat.lt_of_not_le large
    rw [Nat.min_eq_left finite.le, read_of_lt finite]
    refine .inr ?_
    -- The units fill the fraction, carry into the exponent, or are subnormal.
    rcases Nat.lt_or_ge n (2 ^ 52) with few | many
    · obtain rfl : k = 0 := full.resolve_right (Nat.not_le.mpr few)
      exact ⟨n, 0, by rw [Nat.zero_mul, Nat.zero_add, if_pos few]; rfl, rfl⟩
    · rw [if_neg (by omega)]
      rcases Nat.lt_or_ge n (2 ^ 53) with fits | full
      · have quotient : (k * 2 ^ 52 + n) / 2 ^ 52 = k + 1 := by omega
        have remainder : (k * 2 ^ 52 + n) % 2 ^ 52 = n - 2 ^ 52 := by omega
        refine ⟨n, k, ?_, rfl⟩
        rw [quotient, remainder, Nat.add_sub_cancel' many]
        congr 1
        push_cast
        omega
      · have quotient : (k * 2 ^ 52 + n) / 2 ^ 52 = k + 2 := by omega
        have remainder : (k * 2 ^ 52 + n) % 2 ^ 52 = 0 := by omega
        have twice : n = 2 ^ 52 * 2 := by omega
        refine ⟨2 ^ 52, k + 1, ?_, by rw [twice, pow_succ' 2 k, Nat.mul_assoc]⟩
        rw [quotient, remainder, Nat.add_zero]
        congr 1
        push_cast
        omega

/-! ### Values and rational numbers -/

namespace FloatValue

/-- A value **is** a rational number. -/
def Is (q : ℚ) (v : FloatValue) : Prop := ∃ m e, v = .finite false m e ∧ (m : ℚ) * 2 ^ e = q

/-- A value is **at least** a rational number. -/
def AtLeast (q : ℚ) : FloatValue → Prop
  | .nan => False
  | .infinite negative => negative = false
  | .finite negative m e => q ≤ (if negative then -(m : ℚ) else m) * 2 ^ e

/-- A value is **nearest** to a rational number when it is the sum of the units to which the number
rounds, or infinite when that is too much. -/
def Nearest (x : ℚ) (v : FloatValue) : Prop :=
  ∃ unit n, Rounds x unit n ∧ ((v = .infinite false ∧ 971 ≤ unit ∧ 2 ^ 52 ≤ n) ∨ v.Is (n * 2 ^ unit))

/-- A value that is a number is at least what that number is. -/
theorem Is.atLeast_iff {v : FloatValue} {p q : ℚ} (h : v.Is p) : v.AtLeast q ↔ q ≤ p := by
  obtain ⟨m, e, rfl, rfl⟩ := h
  rfl

end FloatValue

/-- A number is **representable** when 53 bits hold what it is in units of some power of two. -/
def Representable (q : ℚ) : Prop := ∃ (k : Nat) (j : Int), k < 2 ^ 53 ∧ -1074 ≤ j ∧ q = k * 2 ^ j

/-- Whole numbers up to the next power of two are representable. -/
theorem representable_natCast {d : Nat} (small : d ≤ 2 ^ 53) : Representable d := by
  rcases Nat.lt_or_eq_of_le small with less | rfl
  · exact ⟨d, 0, less, by decide, by rw [zpow_zero, mul_one]⟩
  · exact ⟨1, 53, by decide, by decide, by norm_num⟩

/-- So are halves between those that have one bit less. -/
theorem representable_half {d : Nat} (small : d < 2 ^ 52) : Representable (d + 1 / 2) := by
  refine ⟨2 * d + 1, -1, by omega, by decide, ?_⟩
  push_cast
  rw [zpow_neg_one]
  ring

namespace Rounds

variable {x q : ℚ} {unit : Int} {n : Nat}

/-- A representable number is a whole number of units, or is too small to be one. -/
theorem multiple (h : Rounds x unit n) (rep : Representable q) :
    (∃ k : Nat, q = k * 2 ^ unit) ∨
      (q < 2 ^ 52 * 2 ^ unit ∧ (2 : ℚ) ^ 52 * 2 ^ unit ≤ x ∧ 2 ^ 52 ≤ n) := by
  obtain ⟨k, j, small, least, rfl⟩ := rep
  rcases le_or_gt unit j with le | less
  · refine .inl ⟨k * 2 ^ (j - unit).toNat, ?_⟩
    have exponent : j = (j - unit).toNat + unit := by omega
    rw [Nat.cast_mul, Nat.cast_pow, Nat.cast_ofNat, mul_assoc, ← zpow_natCast,
      ← zpow_add₀ two_ne_zero, ← exponent]
  · have not_least : unit ≠ -1074 := by omega
    have low := h.low.resolve_left not_least
    rw [zpow_add₀ two_ne_zero, mul_comm] at low
    refine .inr ⟨?_, by exact_mod_cast low, h.bound_le.resolve_left not_least⟩
    calc (k : ℚ) * 2 ^ j < 2 ^ 53 * 2 ^ j :=
          mul_lt_mul_of_pos_right (by exact_mod_cast small) (unit_pos j)
      _ ≤ 2 ^ 53 * 2 ^ (unit - 1) := by
          refine mul_le_mul_of_nonneg_left (zpow_le_zpow_right₀ one_le_two ?_) (by norm_num)
          omega
      _ = 2 ^ 52 * 2 ^ unit := by
          rw [zpow_sub_one₀ two_ne_zero]
          ring

/-- Rounding up to a number of units takes more than half of the last one. -/
theorem le_of_lt {k : Nat} (h : Rounds x unit n) (less : k * (2 : ℚ) ^ unit < x + 2 ^ unit / 2) :
    k ≤ n := by
  have above := h.above
  have : (k : ℚ) * 2 ^ unit < (n + 1) * 2 ^ unit := by linarith
  exact Nat.lt_succ_iff.mp (by exact_mod_cast lt_of_mul_lt_mul_right this (unit_pos unit).le)

/-- Rounding down to a number of units takes more than half of the next one. -/
theorem ge_of_lt {k : Nat} (h : Rounds x unit n) (less : x < k * (2 : ℚ) ^ unit + 2 ^ unit / 2) :
    n ≤ k := by
  have below := h.below
  have : (n : ℚ) * 2 ^ unit < (k + 1) * 2 ^ unit := by linarith
  exact Nat.lt_succ_iff.mp (by exact_mod_cast lt_of_mul_lt_mul_right this (unit_pos unit).le)

/-- Rounding reaches a representable number from half a unit below it on. -/
theorem le_of_lt_add (h : Rounds x unit n) (rep : Representable q) (less : q < x + 2 ^ unit / 2) :
    q ≤ n * 2 ^ unit := by
  have pos := unit_pos unit
  rcases h.multiple rep with ⟨k, rfl⟩ | ⟨small, -, many⟩
  · exact mul_le_mul_of_nonneg_right (by exact_mod_cast h.le_of_lt less) pos.le
  · exact small.le.trans (mul_le_mul_of_nonneg_right (by exact_mod_cast many) pos.le)

/-- Rounding does not pass below a representable number. -/
theorem le_of_le (h : Rounds x unit n) (rep : Representable q) (le : q ≤ x) :
    q ≤ n * 2 ^ unit := by
  have pos := unit_pos unit
  exact h.le_of_lt_add rep (by linarith)

/-- Rounding does not pass above a representable number. -/
theorem ge_of_ge (h : Rounds x unit n) (rep : Representable q) (ge : x ≤ q) :
    n * 2 ^ unit ≤ q := by
  have pos := unit_pos unit
  rcases h.multiple rep with ⟨k, rfl⟩ | ⟨small, large, -⟩
  · exact mul_le_mul_of_nonneg_right (by exact_mod_cast h.ge_of_lt (by linarith)) pos.le
  · exact absurd (small.trans_le large) (not_lt.mpr ge)

end Rounds

namespace FloatValue.Nearest

variable {x q : ℚ} {v : FloatValue}

/-- What is nearest to a number is at least every representable number below it. -/
theorem atLeast_of_le (h : v.Nearest x) (rep : Representable q) (le : q ≤ x) : v.AtLeast q := by
  obtain ⟨unit, n, rounds, ⟨rfl, -⟩ | is⟩ := h
  · rfl
  · exact is.atLeast_iff.mpr (rounds.le_of_le rep le)

/-- What is nearest to a number of moderate size is finite. -/
theorem exists_is (h : v.Nearest x) (small : x ≤ 2 ^ 53) :
    ∃ unit n, Rounds x unit n ∧ v.Is (n * 2 ^ unit) := by
  obtain ⟨unit, n, rounds, ⟨-, high, many⟩ | is⟩ := h
  · have le := rounds.ge_of_ge (representable_natCast (d := 2 ^ 53) le_rfl) (by exact_mod_cast small)
    have unit_le : (2 : ℚ) ^ (2 : Int) ≤ 2 ^ unit := zpow_le_zpow_right₀ one_le_two (by omega)
    have large : (2 : ℚ) ^ 52 * 2 ^ (2 : Int) ≤ n * 2 ^ unit :=
      mul_le_mul (by exact_mod_cast many) unit_le (Rounds.unit_pos 2).le (Nat.cast_nonneg n)
    norm_num at le large
    linarith
  · exact ⟨unit, n, rounds, is⟩

end FloatValue.Nearest

namespace Binary64

/-- **The nearest double is nearest.** -/
theorem nearest_nearest {num den : Nat} (num_pos : 0 < num) (den_pos : 0 < den) :
    (nearest false num den).value.Nearest (num / den) := by
  obtain ⟨unit, n, rounds, word⟩ := BinaryFormat.rounds_nearestWord num_pos den_pos
  obtain ⟨k, rfl⟩ : ∃ k : Nat, unit = k - 1074 :=
    ⟨(unit + 1074).toNat, by have := rounds.least; omega⟩
  have units : ((k : Int) - 1074 + 1074).toNat = k := by omega
  rw [units] at word
  have full : k = 0 ∨ 2 ^ 52 ≤ n := rounds.bound_le.imp_left fun least => by omega
  have value : (nearest false num den).value
      = BinaryFormat.double.read (min (k * BinaryFormat.double.hidden + n)
          BinaryFormat.double.infinityWord) := by
    have small : min (k * BinaryFormat.double.hidden + n) BinaryFormat.double.infinityWord < 2 ^ 64 :=
      Nat.lt_of_le_of_lt (Nat.min_le_right _ _) (by decide)
    rw [Binary64.value, nearest, BinaryFormat.nearest, word, if_neg Bool.false_ne_true, Nat.zero_add,
      UInt64.toNat_ofNat_of_lt' small]
  refine ⟨_, n, rounds, ?_⟩
  rw [value]
  rcases BinaryFormat.read_units full rounds.le_bound with ⟨infinite, large⟩ | ⟨m, j, finite, same⟩
  · exact .inl ⟨infinite, by omega, large.2⟩
  · refine .inr ⟨m, _, finite, ?_⟩
    have same' : (m : ℚ) * 2 ^ j = n * 2 ^ k := by exact_mod_cast same
    rw [zpow_sub₀ two_ne_zero, zpow_sub₀ two_ne_zero, zpow_natCast, zpow_natCast, ← mul_div_assoc,
      same', mul_div_assoc]

/-- A whole number of 53 bits is a double. -/
theorem is_ofNat {d : Nat} (pos : 0 < d) (small : d < 2 ^ 53) : (ofNat d).value.Is d := by
  have near := nearest_nearest pos Nat.one_pos
  rw [Nat.cast_one, div_one] at near
  have small' : (d : ℚ) ≤ 2 ^ 53 := by exact_mod_cast small.le
  obtain ⟨unit, n, rounds, is⟩ := near.exists_is small'
  have rep := representable_natCast small.le
  rwa [le_antisymm (rounds.ge_of_ge rep le_rfl) (rounds.le_of_le rep le_rfl)] at is

/-- One is a double. -/
theorem is_one : (ofNat 1).value.Is 1 := by
  have is := is_ofNat Nat.one_pos (by decide)
  rwa [Nat.cast_one] at is

/-- The double of a significand and an exponent is nearest to what they make. -/
theorem nearest_ofScaled {m : Nat} (pos : 0 < m) (e : Int) :
    (ofScaled false m e).value.Nearest (m * 2 ^ e) := by
  rw [ofScaled]
  split_ifs with sign
  · obtain ⟨k, rfl⟩ := Int.eq_ofNat_of_zero_le sign
    have scaled_pos : 0 < m <<< k := by
      rw [Nat.shiftLeft_eq]
      positivity
    have near := nearest_nearest scaled_pos Nat.one_pos
    rw [Nat.shiftLeft_eq, Nat.cast_one, div_one] at near
    simpa [Nat.shiftLeft_eq] using near
  · obtain ⟨k, rfl⟩ := Int.exists_eq_neg_ofNat (Int.le_of_not_le sign)
    have scaled_pos : 0 < 1 <<< k := by
      rw [Nat.shiftLeft_eq]
      positivity
    have near := nearest_nearest pos scaled_pos
    simpa [Nat.shiftLeft_eq, div_eq_mul_inv] using near

/-- The product of two positive numbers is nearest to their exact product. -/
theorem nearest_mul {x y : Binary64} {p q : ℚ} (hx : x.value.Is p) (hy : y.value.Is q) (p_pos : 0 < p)
    (q_pos : 0 < q) : (x.mul y).value.Nearest (p * q) := by
  obtain ⟨m, e, hx, rfl⟩ := hx
  obtain ⟨n, g, hy, rfl⟩ := hy
  have m_pos : 0 < m := Nat.pos_of_ne_zero fun zero => by simp [zero] at p_pos
  have n_pos : 0 < n := Nat.pos_of_ne_zero fun zero => by simp [zero] at q_pos
  have near := nearest_ofScaled (Nat.mul_pos m_pos n_pos) (e + g)
  rw [Nat.cast_mul, zpow_add₀ two_ne_zero, mul_mul_mul_comm] at near
  rw [mul, hx, hy]
  exact near

/-- A double rounds to a whole number or a greater one from half a unit below it on. -/
theorem le_roundToNat_iff {x : Binary64} {k bound : Nat} (pos : 0 < k) (within : k ≤ bound) :
    k ≤ x.roundToNat bound ↔ x.value.AtLeast (k - 1 / 2) := by
  have k_pos : (1 : ℚ) ≤ k := by exact_mod_cast pos
  rw [roundToNat]
  cases x.value with
  | nan => exact iff_of_false (Nat.not_le.mpr pos) not_false
  | infinite negative =>
    cases negative with
    | true => exact iff_of_false (Nat.not_le.mpr pos) (by simp [FloatValue.AtLeast])
    | false => exact iff_of_true within rfl
  | finite negative m e =>
    have unit_pos := Rounds.unit_pos e
    cases negative with
    | true =>
      refine iff_of_false (Nat.not_le.mpr pos) fun atLeast => ?_
      have : (k : ℚ) - 1 / 2 ≤ -m * 2 ^ e := atLeast
      have : (0 : ℚ) ≤ m * 2 ^ e := by positivity
      linarith
    | false =>
      show k ≤ min bound _ ↔ (k : ℚ) - 1 / 2 ≤ m * 2 ^ e
      rw [Nat.le_min, and_iff_right within]
      split_ifs with sign
      · obtain ⟨j, rfl⟩ := Int.eq_ofNat_of_zero_le sign
        rw [Int.toNat_natCast, Nat.shiftLeft_eq, zpow_natCast]
        constructor
        · intro le
          have : (k : ℚ) ≤ m * 2 ^ j := by exact_mod_cast le
          linarith
        · intro le
          have : (k : ℚ) < (m * 2 ^ j : Nat) + 1 := by
            push_cast
            linarith
          exact Nat.lt_succ_iff.mp (by exact_mod_cast this)
      · obtain ⟨j, rfl⟩ := Int.exists_eq_neg_ofNat (Int.le_of_not_le sign)
        have power_pos : (0 : ℚ) < 2 ^ j := by positivity
        rw [neg_neg, Int.toNat_natCast, Nat.one_shiftLeft, roundHalfUp,
          Nat.le_div_iff_mul_le (by positivity), zpow_neg, zpow_natCast, ← div_eq_mul_inv,
          le_div_iff₀ power_pos, ← Nat.cast_le (α := ℚ)]
        push_cast
        constructor <;> intro le <;> linarith

/-- One double is at least another when it is at least what the other is. -/
theorem atLeast_iff {x y : Binary64} {q : ℚ} (hy : y.value.Is q) :
    x.atLeast y = true ↔ x.value.AtLeast q := by
  obtain ⟨n, g, hy, rfl⟩ := hy
  rw [atLeast, hy]
  cases x.value with
  | nan => simp [FloatValue.AtLeast]
  | infinite negative => cases negative <;> simp [FloatValue.AtLeast]
  | finite negative m e =>
    -- Both are counted in the lower of the two units.
    have exponents : ∃ i j : Nat, e = min e g + i ∧ g = min e g + j :=
      ⟨(e - min e g).toNat, (g - min e g).toNat, by omega, by omega⟩
    obtain ⟨i, j, he, hg⟩ := exponents
    have units : (e - min e g).toNat = i ∧ (g - min e g).toNat = j := by omega
    have unit_pos := Rounds.unit_pos (min e g)
    have whole (a : Nat) (b : Int) (c : Nat) (eq : b = min e g + c) :
        (a : ℚ) * 2 ^ b = (a * 2 ^ c : Nat) * 2 ^ min e g := by
      rw [eq, zpow_add₀ two_ne_zero, zpow_natCast]
      push_cast
      ring
    simp only [FloatValue.AtLeast, units.1, units.2, Nat.shiftLeft_eq, Bool.false_eq_true, if_false,
      decide_eq_true_eq, whole n g j hg]
    cases negative with
    | true =>
      rw [if_pos rfl, if_pos rfl, neg_mul, whole m e i he, ← neg_mul, mul_le_mul_iff_left₀ unit_pos]
      exact_mod_cast Iff.rfl
    | false =>
      rw [if_neg Bool.false_ne_true, if_neg Bool.false_ne_true, whole m e i he,
        mul_le_mul_iff_left₀ unit_pos]
      exact_mod_cast Iff.rfl

end Binary64

end CertifiedCalls
