import Mathlib
import CertifiedCalls.Decimal.Shortest

/-! # How long decimals are
The search for the shortest decimal of a word ends where the multiples of a power of ten lie closer
together than the reals that round to the word (`RoundingInterval.le_search`). That bounds the
octets that show a floating-point number (`Binary64.utf8ByteSize_toText_le`). -/

namespace CertifiedCalls

namespace RoundingInterval

variable {r : RoundingInterval} {place start : Int}

/-- The multiple that is found is the one above or below the value; the one above is found when it
lies in the interval. -/
theorem multiple?_eq (r : RoundingInterval) (place : Int) :
    ∃ below above near : Bool, ∃ n, n = r.value * 10 ^ (-place).toNat / (r.den * 10 ^ place.toNat) ∧
      r.multiple? place = (if above && (!below || near) then some (n + 1)
        else if below then some n else none) ∧
      ((n + 1) * (r.den * 10 ^ place.toNat) < r.high * 10 ^ (-place).toNat → above = true) := by
  refine ⟨_, _, _, _, rfl, rfl, fun lt => ?_⟩
  simp only
  split
  · exact decide_eq_true (Nat.le_of_lt lt)
  · exact decide_eq_true lt

/-- A multiple that is found is one of the two next to the value. -/
theorem multiple?_le {digits : Nat} (h : r.multiple? place = some digits) :
    digits ≤ r.value * 10 ^ (-place).toNat / (r.den * 10 ^ place.toNat) + 1 := by
  obtain ⟨below, above, near, n, rfl, shape, -⟩ := r.multiple?_eq place
  rw [shape] at h
  split at h
  · exact Nat.le_of_eq (Option.some.inj h).symm
  · split at h
    · exact Nat.le_trans (Nat.le_of_eq (Option.some.inj h).symm) (Nat.le_succ _)
    · cases h

/-- A multiple is found where the multiples lie closer to each other than the value to the end of
the interval. -/
theorem multiple?_isSome
    (close : r.den * 10 ^ place.toNat < (r.high - r.value) * 10 ^ (-place).toNat) :
    (r.multiple? place).isSome = true := by
  obtain ⟨below, above, near, n, rfl, shape, reaches⟩ := r.multiple?_eq place
  have floor := Nat.div_mul_le_self (r.value * 10 ^ (-place).toNat) (r.den * 10 ^ place.toNat)
  rw [Nat.sub_mul] at close
  rw [Nat.add_mul, Nat.one_mul] at reaches
  rw [shape, reaches (by omega)]
  cases below <;> cases near <;> rfl

/-- Where the search ends: at most so many places further down, with a number next to the value. -/
theorem search_spec (r : RoundingInterval) (start : Int) (steps : Nat) :
    start - steps ≤ (r.search start steps).2 ∧ (r.search start steps).2 ≤ start ∧
      (r.search start steps).1 ≤ r.value * 10 ^ (-(r.search start steps).2).toNat
        / (r.den * 10 ^ (r.search start steps).2.toNat) + 1 := by
  induction steps generalizing start with
  | zero =>
    refine ⟨Int.sub_le_self _ (Int.natCast_nonneg _), Int.le_refl _, ?_⟩
    rw [search]
    cases found : r.multiple? start with
    | none => exact Nat.zero_le _
    | some digits => exact multiple?_le found
  | succ steps ih =>
    rw [search]
    cases found : r.multiple? start with
    | some digits =>
      exact ⟨Int.sub_le_self _ (Int.natCast_nonneg _), Int.le_refl _, multiple?_le found⟩
    | none =>
      obtain ⟨low, high, bound⟩ := ih (start - 1)
      refine ⟨?_, ?_, bound⟩
      · show start - (steps + 1 : Nat) ≤ (r.search (start - 1) steps).2
        omega
      · show (r.search (start - 1) steps).2 ≤ start
        omega

/-- The search does not go on after a place where a multiple is found. -/
theorem le_search (found : (r.multiple? place).isSome = true) (steps : Nat) (le : place ≤ start) :
    place ≤ (r.search start steps).2 := by
  induction steps generalizing start with
  | zero => exact le
  | succ steps ih =>
    rw [search]
    cases here : r.multiple? start with
    | some digits => exact le
    | none =>
      have other : place ≠ start := by
        rintro rfl
        rw [here] at found
        cases found
      exact ih (by omega)

variable {f : BinaryFormat} {significand : Nat} {exponent : Int}

/-- The whole part of a word's value is no more than its significand scaled up. -/
theorem ofWord_whole_le :
    (ofWord f significand exponent).value / (ofWord f significand exponent).den
      ≤ significand * 2 ^ exponent.toNat := by
  rw [ofWord]
  by_cases large : 2 ≤ exponent
  · obtain ⟨n, rfl⟩ : ∃ n : Nat, exponent = n + 2 := ⟨(exponent - 2).toNat, by omega⟩
    simp only [large, if_true, Nat.div_one, Nat.shiftLeft_eq]
    have up : ((n : Int) + 2).toNat = n + 2 := by omega
    have down : ((n : Int) + 2 - 2).toNat = n := by omega
    rw [up, down, Nat.pow_add]
    exact Nat.le_of_eq (by rw [Nat.mul_comm 4, Nat.mul_assoc, Nat.mul_comm 4])
  · simp only [large, if_false, Nat.one_shiftLeft]
    refine Nat.div_le_of_le_mul ?_
    have quarters : 2 ^ 2 ≤ 2 ^ (2 - exponent).toNat * 2 ^ exponent.toNat := by
      rw [← Nat.pow_add]
      exact Nat.pow_le_pow_right (by decide) (by omega)
    calc 4 * significand
        ≤ (2 ^ (2 - exponent).toNat * 2 ^ exponent.toNat) * significand :=
          Nat.mul_le_mul_right _ quarters
      _ = 2 ^ (2 - exponent).toNat * (significand * 2 ^ exponent.toNat) := by
          rw [Nat.mul_assoc, Nat.mul_comm significand]

/-- The common denominator is positive. -/
theorem ofWord_den_pos (f : BinaryFormat) (significand : Nat) (exponent : Int) :
    0 < (ofWord f significand exponent).den := by
  rw [ofWord]
  simp only
  split
  · exact Nat.one_pos
  · rw [Nat.one_shiftLeft]
    exact Nat.two_pow_pos _

end RoundingInterval

open RoundingInterval

variable {f : BinaryFormat} {significand : Nat} {exponent : Int}

/-- The digits of the whole part of a word's value. -/
def wholeDigits (f : BinaryFormat) (significand : Nat) (exponent : Int) : Nat :=
  let r := ofWord f significand exponent
  (Nat.toDigits 10 (r.value / r.den)).length

/-- The whole part of a small word has few digits. -/
theorem wholeDigits_le {n : Nat} (positive : 0 < n)
    (small : significand * 2 ^ exponent.toNat < 10 ^ n) : wholeDigits f significand exponent ≤ n :=
  (Nat.length_toDigits_le_iff (by decide) positive).mpr (Nat.lt_of_le_of_lt ofWord_whole_le small)

/-- The shortest decimal has at most one digit more before its point than the whole part, and its
last place is not before that of the exponent. -/
theorem shortestDecimal_spec (f : BinaryFormat) (significand : Nat) (exponent : Int) :
    -((-exponent).toNat : Int) ≤ (shortestDecimal f significand exponent).2 ∧
      ((Nat.toDigits 10 (shortestDecimal f significand exponent).1).length : Int)
        + (shortestDecimal f significand exponent).2 ≤ wholeDigits f significand exponent + 1 := by
  have spec := (ofWord f significand exponent).search_spec (wholeDigits f significand exponent)
    (wholeDigits f significand exponent + (-exponent).toNat)
  change _ ≤ (shortestDecimal f significand exponent).2 ∧
    (shortestDecimal f significand exponent).2 ≤ _ ∧
    (shortestDecimal f significand exponent).1
      ≤ _ * 10 ^ (-(shortestDecimal f significand exponent).2).toNat
        / (_ * 10 ^ (shortestDecimal f significand exponent).2.toNat) + 1 at spec
  generalize shortestDecimal f significand exponent = found at spec ⊢
  obtain ⟨digits, place⟩ := found
  obtain ⟨low, high, next⟩ := spec
  refine ⟨by push_cast at low; omega, ?_⟩
  simp only at low high next ⊢
  -- The value lies below the power of ten of its whole digits, so the number of digits that are
  -- counted from there down to the place says how large the number is.
  obtain ⟨k, count⟩ : ∃ k : Nat, (wholeDigits f significand exponent : Int) - place = k :=
    ⟨_, (Int.toNat_of_nonneg (by omega)).symm⟩
  have den_pos := ofWord_den_pos f significand exponent
  have whole : (ofWord f significand exponent).value
      < 10 ^ wholeDigits f significand exponent * (ofWord f significand exponent).den := by
    rw [← Nat.div_lt_iff_lt_mul den_pos]
    exact (Nat.length_toDigits_le_iff (by decide) (List.length_pos_iff.mpr Nat.toDigits_ne_nil)).mp
      (Nat.le_refl _)
  have powers : 10 ^ wholeDigits f significand exponent * 10 ^ (-place).toNat
      = 10 ^ k * 10 ^ place.toNat := by
    rw [← Nat.pow_add, ← Nat.pow_add]
    congr 1
    omega
  have scaled : (ofWord f significand exponent).value * 10 ^ (-place).toNat
      < 10 ^ k * ((ofWord f significand exponent).den * 10 ^ place.toNat) := by
    calc (ofWord f significand exponent).value * 10 ^ (-place).toNat
        < 10 ^ wholeDigits f significand exponent * (ofWord f significand exponent).den
            * 10 ^ (-place).toNat :=
          Nat.mul_lt_mul_of_pos_right whole (Nat.pow_pos (by decide))
      _ = 10 ^ wholeDigits f significand exponent * 10 ^ (-place).toNat
            * (ofWord f significand exponent).den := Nat.mul_right_comm _ _ _
      _ = 10 ^ k * ((ofWord f significand exponent).den * 10 ^ place.toNat) := by
          rw [powers, Nat.mul_assoc, Nat.mul_comm (10 ^ place.toNat)]
  have below := (Nat.div_lt_iff_lt_mul
    (Nat.mul_pos den_pos (Nat.pow_pos (show 0 < 10 by decide)))).mpr scaled
  have power_pos : 0 < 10 ^ k := Nat.pow_pos (by decide)
  have small : digits < 10 ^ (k + 1) := by
    rw [Nat.pow_succ]
    omega
  have length := (Nat.length_toDigits_le_iff (show 1 < 10 by decide) (Nat.succ_pos k)).mpr small
  omega

/-- The last place is at most so many places after the point when the exponent is, and also when the
multiples there lie closer together than the reals that round to the word. -/
theorem le_shortestDecimal {after : Nat}
    (fine : -(after : Int) ≤ exponent ∨ 2 ^ (2 - exponent).toNat < 2 * 10 ^ after) :
    -(after : Int) ≤ (shortestDecimal f significand exponent).2 := by
  by_cases near : -(after : Int) ≤ exponent
  · have := (shortestDecimal_spec f significand exponent).1
    omega
  · have close := fine.resolve_left near
    refine le_search (multiple?_isSome ?_) _ (by omega)
    have small : ¬ 2 ≤ exponent := by omega
    have none : (-(after : Int)).toNat = 0 := by omega
    have all : (- -(after : Int)).toNat = after := by omega
    have apart : 4 * significand + 2 - 4 * significand = 2 := by omega
    rw [ofWord, none, all]
    simp only [small, if_false, Nat.one_shiftLeft, Nat.pow_zero, Nat.mul_one, apart]
    exact close

/-- How long a positional numeral is. -/
theorem length_positional_le {digits : Nat} {place : Int} {whole after : Nat}
    (low : -(after : Int) ≤ place)
    (high : ((Nat.toDigits 10 digits).length : Int) + place ≤ whole + 1) :
    (positional digits place).length ≤ whole + after + 2 := by
  rw [positional]
  simp only
  split
  · rw [List.length_append, List.length_replicate]
    omega
  · split
    · rw [List.length_append, List.length_cons, List.length_take, List.length_drop]
      omega
    · rw [List.length_append, List.length_append, List.length_replicate]
      simp only [List.length_cons, List.length_nil]
      omega

/-- A word's shortest decimal is written with few characters: so many before the point and so many
after it. -/
theorem length_positional_shortestDecimal_le (whole after : Nat) (positive : 0 < whole)
    (small : significand * 2 ^ exponent.toNat < 10 ^ whole)
    (fine : -(after : Int) ≤ exponent ∨ 2 ^ (2 - exponent).toNat < 2 * 10 ^ after) :
    (positional (shortestDecimal f significand exponent).1
      (shortestDecimal f significand exponent).2).length ≤ whole + after + 2 := by
  have count := (shortestDecimal_spec f significand exponent).2
  have digits := wholeDigits_le (f := f) positive small
  exact length_positional_le (le_shortestDecimal fine) (by omega)

/-! ### Texts of ASCII characters -/

/-- A text of ASCII characters has one octet for each. -/
theorem utf8ByteSize_ofList_of_ascii {cs : List Char} (ascii : ∀ c ∈ cs, c.val ≤ 127) :
    (String.ofList cs).utf8ByteSize = cs.length := by
  induction cs with
  | nil => rfl
  | cons c cs ih =>
    rw [List.forall_mem_cons] at ascii
    rw [String.ofList_cons, String.utf8ByteSize_append, String.utf8ByteSize_singleton, ih ascii.2,
      Char.utf8Size_eq_one_iff.mpr ascii.1, List.length_cons, Nat.add_comm]

/-- Decimal digits are ASCII characters. -/
theorem ascii_of_mem_toDigits {n : Nat} {c : Char} (mem : c ∈ Nat.toDigits 10 n) : c.val ≤ 127 := by
  have digit := Nat.isDigit_of_mem_toDigits (by decide) (by decide) mem
  rw [Char.isDigit, Bool.and_eq_true, decide_eq_true_iff, decide_eq_true_iff] at digit
  exact UInt32.le_trans digit.2 (by decide)

/-- Positional numerals are written in ASCII. -/
theorem ascii_of_mem_positional {digits : Nat} {place : Int} {c : Char}
    (mem : c ∈ positional digits place) : c.val ≤ 127 := by
  have zero : ∀ {n : Nat}, c ∈ List.replicate n '0' → c.val ≤ 127 := fun mem => by
    rw [List.eq_of_mem_replicate mem]
    decide
  rw [positional] at mem
  simp only at mem
  split at mem
  · exact (List.mem_append.mp mem).elim ascii_of_mem_toDigits zero
  · split at mem
    · rcases List.mem_append.mp mem with mem | mem
      · exact ascii_of_mem_toDigits (List.mem_of_mem_take mem)
      · rcases List.mem_cons.mp mem with rfl | mem
        · decide
        · exact ascii_of_mem_toDigits (List.mem_of_mem_drop mem)
    · rcases List.mem_append.mp mem with mem | mem
      · rcases List.mem_append.mp mem with mem | mem
        · rcases List.mem_cons.mp mem with rfl | mem
          · decide
          · rw [List.mem_singleton.mp mem]
            decide
        · exact zero mem
      · exact ascii_of_mem_toDigits mem

/-- How long the text of a floating-point value is. -/
theorem FloatValue.utf8ByteSize_toText_le {value : FloatValue} {width : Nat} (least : 3 ≤ width)
    (each : ∀ negative significand exponent, value = .finite negative significand exponent →
      (positional (shortestDecimal f significand exponent).1
        (shortestDecimal f significand exponent).2).length ≤ width) :
    (value.toText f).utf8ByteSize ≤ width + 1 := by
  cases value with
  | nan => exact Nat.le_succ_of_le least
  | infinite negative =>
    cases negative
    · exact Nat.le_succ_of_le least
    · exact Nat.succ_le_succ least
  | finite negative significand exponent =>
    have body : ∃ cs : List Char, (∀ c ∈ cs, c.val ≤ 127) ∧ cs.length ≤ width ∧
        FloatValue.toText f (.finite negative significand exponent)
          = String.ofList (if negative then '-' :: cs else cs) := by
      by_cases zero : significand = 0
      · refine ⟨['0'], List.forall_mem_singleton.mpr (by decide), Nat.le_trans (by decide) least, ?_⟩
        rw [FloatValue.toText, if_pos zero]
      · refine ⟨_, fun c mem => ascii_of_mem_positional mem, each _ _ _ rfl, ?_⟩
        rw [FloatValue.toText, if_neg zero]
    obtain ⟨cs, ascii, short, eq⟩ := body
    rw [eq]
    cases negative with
    | false =>
      rw [if_neg Bool.false_ne_true, utf8ByteSize_ofList_of_ascii ascii]
      exact Nat.le_succ_of_le short
    | true =>
      rw [if_pos rfl, utf8ByteSize_ofList_of_ascii (List.forall_mem_cons.mpr ⟨by decide, ascii⟩)]
      exact Nat.succ_le_succ short

/-- What a word of a format can be: its significand and its exponent are in range. -/
theorem BinaryFormat.read_range {word : Nat} {negative : Bool}
    (read : f.read word = .finite negative significand exponent) :
    significand < 2 * f.hidden ∧ f.leastUnit ≤ exponent ∧
      exponent ≤ f.leastUnit + (f.topExponent - 2 : Nat) := by
  have hidden_pos : 0 < f.hidden := by
    rw [BinaryFormat.hidden, Nat.one_shiftLeft]
    exact Nat.two_pow_pos _
  have fraction := Nat.mod_lt word hidden_pos
  have field : word / f.hidden % (f.topExponent + 1) < f.topExponent + 1 :=
    Nat.mod_lt _ (Nat.succ_pos _)
  rw [BinaryFormat.read] at read
  split at read
  · split at read <;> cases read
  · split at read <;> obtain ⟨-, rfl, rfl⟩ := FloatValue.finite.inj read
    · omega
    · omega

/-- The text of a double has at most 343 octets. -/
theorem Binary64.utf8ByteSize_toText_le (x : Binary64) : x.toText.utf8ByteSize ≤ 343 := by
  refine FloatValue.utf8ByteSize_toText_le (by decide) fun negative significand exponent eq => ?_
  obtain ⟨small, low, high⟩ := BinaryFormat.read_range eq
  have bounds : BinaryFormat.double.hidden = 4503599627370496 ∧
      BinaryFormat.double.leastUnit = -1074 ∧ BinaryFormat.double.topExponent = 2047 := by decide
  rw [bounds.1] at small
  rw [bounds.2.1] at low high
  rw [bounds.2.2] at high
  by_cases whole : 0 ≤ exponent
  · have scale := Nat.pow_le_pow_right Nat.two_pos (show exponent.toNat ≤ 971 by omega)
    refine Nat.le_trans (length_positional_shortestDecimal_le 309 0 (by decide) ?_ (.inl whole))
      (by decide)
    exact Nat.lt_of_le_of_lt (Nat.mul_le_mul (Nat.le_of_lt small) scale) (by decide +kernel)
  · have fraction : exponent.toNat = 0 := by omega
    have scale := Nat.pow_le_pow_right Nat.two_pos (show (2 - exponent).toNat ≤ 1076 by omega)
    refine length_positional_shortestDecimal_le 16 324 (by decide) ?_
      (.inr (Nat.lt_of_le_of_lt scale (by decide +kernel)))
    rw [fraction]
    omega

/-- The text of a single has at most 192 octets. -/
theorem Binary32.utf8ByteSize_toText_le (x : Binary32) : x.toText.utf8ByteSize ≤ 192 := by
  refine FloatValue.utf8ByteSize_toText_le (by decide) fun negative significand exponent eq => ?_
  obtain ⟨small, low, high⟩ := BinaryFormat.read_range eq
  have bounds : BinaryFormat.single.hidden = 8388608 ∧
      BinaryFormat.single.leastUnit = -149 ∧ BinaryFormat.single.topExponent = 255 := by decide
  rw [bounds.1] at small
  rw [bounds.2.1] at low high
  rw [bounds.2.2] at high
  have scale := Nat.pow_le_pow_right Nat.two_pos (show exponent.toNat ≤ 104 by omega)
  exact length_positional_shortestDecimal_le 40 149 (by decide)
    (Nat.lt_of_le_of_lt (Nat.mul_le_mul (Nat.le_of_lt small) scale) (by decide +kernel)) (.inl low)

end CertifiedCalls
