import CertifiedCalls.Config.Agent
import CertifiedCalls.Proofs.Decimal.Rounding

/-! # Growing delays
A delay grows by a factor and is rounded to whole milliseconds. It never shrinks (`le_grow`), but it
grows only where the factor adds half a millisecond to it: under a factor above one, the delays of a
schedule increase up to the longest one, or all of them are the first one
(`backsOff_or_standsStill`). -/

namespace CertifiedCalls

namespace FloatValue

variable {v : FloatValue} {p q : ℚ}

/-- What is at least a number is at least every smaller one. -/
theorem AtLeast.mono (h : v.AtLeast q) (le : p ≤ q) : v.AtLeast p := by
  cases v with
  | nan => exact h
  | infinite negative => exact h
  | finite negative m e => exact le.trans h

/-- What is at least a positive number is a positive number or infinite. -/
theorem AtLeast.infinite_or_is (h : v.AtLeast q) (pos : 0 < q) :
    v = .infinite false ∨ ∃ p, v.Is p ∧ q ≤ p := by
  cases v with
  | nan => cases h
  | infinite negative => exact .inl (congrArg _ h)
  | finite negative m e =>
    cases negative with
    | true =>
      have le : q ≤ -m * 2 ^ e := h
      have := Rounds.unit_pos e
      have : (0 : ℚ) ≤ m * 2 ^ e := by positivity
      linarith
    | false => exact .inr ⟨m * 2 ^ e, ⟨m, e, rfl, rfl⟩, h⟩

/-- A value is **above** a number when it is at least a greater one. -/
def Above (q : ℚ) (v : FloatValue) : Prop := ∃ p, q < p ∧ v.AtLeast p

/-- What is above a positive number is a greater number or infinite. -/
theorem Above.infinite_or_is (h : v.Above q) (pos : 0 < q) :
    v = .infinite false ∨ ∃ p, v.Is p ∧ q < p := by
  obtain ⟨r, less, least⟩ := h
  exact (least.infinite_or_is (pos.trans less)).imp_right
    fun ⟨p, is, le⟩ => ⟨p, is, less.trans_le le⟩

/-- What is above a number is at least that number. -/
theorem Above.atLeast (h : v.Above q) : v.AtLeast q :=
  let ⟨_, less, least⟩ := h
  least.mono less.le

end FloatValue

namespace Binary64

/-- A double above one exceeds it by a unit of its fraction at least. -/
theorem one_add_le {x : Binary64} {p : ℚ} (h : x.value.Is p) (above : 1 < p) :
    1 + 2 ^ (-52 : Int) ≤ p := by
  obtain ⟨m, e, eq, rfl⟩ := h
  have bound : m < 2 ^ 53 := (BinaryFormat.read_range eq).1
  rcases le_or_gt 0 e with whole | fraction
  · obtain ⟨k, rfl⟩ := Int.eq_ofNat_of_zero_le whole
    rw [zpow_natCast] at above ⊢
    have two_le : (2 : ℚ) ≤ m * 2 ^ k := by
      have : 1 < m * 2 ^ k := by exact_mod_cast above
      exact_mod_cast this
    refine le_trans ?_ two_le
    norm_num
  · obtain ⟨k, rfl⟩ := Int.exists_eq_neg_ofNat fraction.le
    have power_pos : (0 : ℚ) < 2 ^ k := by positivity
    have quotient : (m : ℚ) * 2 ^ (-(k : Int)) = m / 2 ^ k := by
      rw [zpow_neg, zpow_natCast, div_eq_mul_inv]
    rw [quotient] at above ⊢
    rw [lt_div_iff₀ power_pos, one_mul] at above
    have more : 2 ^ k < m := by exact_mod_cast above
    have few : k ≤ 52 := by
      have : 2 ^ k < 2 ^ 53 := more.trans bound
      exact Nat.lt_succ_iff.mp ((Nat.pow_lt_pow_iff_right Nat.one_lt_two).mp this)
    have next : (2 : ℚ) ^ k + 1 ≤ m := by exact_mod_cast more
    have unit : (2 : ℚ) ^ (-52 : Int) * 2 ^ k ≤ 1 := by
      rw [zpow_neg, inv_mul_le_iff₀ (by positivity), mul_one]
      exact_mod_cast Nat.pow_le_pow_right Nat.two_pos few
    rw [le_div_iff₀ power_pos]
    linarith

/-- The product of a positive number and infinity is infinite. -/
theorem mul_infinite {x y : Binary64} {p : ℚ} (hx : x.value.Is p) (pos : 0 < p)
    (hy : y.value = .infinite false) : (x.mul y).value = .infinite false := by
  obtain ⟨m, e, hx, rfl⟩ := hx
  have nonzero : m ≠ 0 := fun zero => by simp [zero] at pos
  rw [mul, hx, hy]
  simp only [nonzero, if_false]
  decide

/-- The product of zero and anything is zero, or no number. -/
theorem zero_mul (y : Binary64) :
    ((ofNat 0).mul y).value = .nan ∨
      ∃ negative e, ((ofNat 0).mul y).value = .finite negative 0 e := by
  have zero : (ofNat 0).value = .finite false 0 (-1074) := by decide
  have nearest_zero (negative : Bool) (den : Nat) :
      (nearest negative 0 den).value = .finite negative 0 (-1074) := by
    have word : BinaryFormat.double.nearestWord 0 den = 0 := if_pos rfl
    rw [nearest, BinaryFormat.nearest, word]
    cases negative <;> decide
  rw [mul, zero]
  cases y.value with
  | nan => exact .inl (by decide)
  | infinite negative => exact .inl (by cases negative <;> decide)
  | finite negative m e =>
    refine .inr ⟨false != negative, -1074, ?_⟩
    simp only [Nat.zero_mul, ofScaled, Nat.zero_shiftLeft]
    split_ifs <;> exact nearest_zero _ _

end Binary64

/-- The **first delay** of a schedule. -/
def PollSettings.firstDelay (settings : PollSettings) : Nat :=
  min settings.initialDelayMs settings.maxDelayMs

namespace PollSchedule

variable {s : PollSchedule} {d e : Nat} {p : ℚ}

/-! ### One delay -/

/-- A delay grows to a number when the product is closer to it than half a unit. -/
theorem le_grow_iff {k : Nat} (pos : 0 < k) (small : k ≤ 2 ^ 53) :
    k ≤ s.grow d ↔ ((Binary64.ofNat d).mul s.multiplier).value.AtLeast (k - 1 / 2) :=
  Binary64.le_roundToNat_iff pos (small.trans (by decide))

/-- No delay does not grow. -/
theorem grow_zero : s.grow 0 = 0 := by
  refine Nat.eq_zero_of_not_pos fun pos => ?_
  have half := (le_grow_iff Nat.one_pos (by decide)).mp pos
  obtain eq | ⟨negative, e, eq⟩ := Binary64.zero_mul s.multiplier
  · rw [eq] at half
    exact half
  · rw [eq] at half
    cases negative <;> norm_num [FloatValue.AtLeast] at half

/-- The product of a delay and a factor is nearest to the exact one. -/
theorem nearest_product (pos : 0 < d) (small : d < 2 ^ 53) (factor : s.multiplier.value.Is p)
    (p_pos : 0 < p) : ((Binary64.ofNat d).mul s.multiplier).value.Nearest (d * p) :=
  Binary64.nearest_mul (Binary64.is_ofNat pos small) factor (Nat.cast_pos.mpr pos) p_pos

/-- An infinite factor makes every delay grow to any number. -/
theorem le_grow_of_infinite {k : Nat} (pos : 0 < d) (small : d < 2 ^ 53)
    (factor : s.multiplier.value = .infinite false) (within : k ≤ 2 ^ 53) : k ≤ s.grow d := by
  rcases Nat.eq_zero_or_pos k with rfl | k_pos
  · exact Nat.zero_le _
  · rw [le_grow_iff k_pos within,
      Binary64.mul_infinite (Binary64.is_ofNat pos small) (Nat.cast_pos.mpr pos) factor]
    rfl

/-- A delay grows to what the exact product reaches. -/
theorem le_grow_of_le {k : Nat} (pos : 0 < d) (small : d < 2 ^ 53)
    (factor : s.multiplier.value.Is p) (p_pos : 0 < p) (within : k ≤ 2 ^ 53) (le : (k : ℚ) ≤ d * p) :
    k ≤ s.grow d := by
  rcases Nat.eq_zero_or_pos k with rfl | k_pos
  · exact Nat.zero_le _
  · rw [le_grow_iff k_pos within]
    have reached := (nearest_product pos small factor p_pos).atLeast_of_le
      (representable_natCast within) le
    exact reached.mono (by linarith)

/-- **A delay does not shrink** under a factor of one or more. -/
theorem le_grow (small : d < 2 ^ 53) (factor : s.multiplier.value.AtLeast 1) : d ≤ s.grow d := by
  rcases Nat.eq_zero_or_pos d with rfl | pos
  · exact Nat.zero_le _
  rcases factor.infinite_or_is one_pos with infinite | ⟨p, is, le⟩
  · exact le_grow_of_infinite pos small infinite small.le
  · exact le_grow_of_le pos small is (by linarith) small.le
      (le_mul_of_one_le_right (Nat.cast_nonneg d) le)

/-- A delay grows when the product is more than it by half a unit. -/
theorem lt_grow_iff (small : d < 2 ^ 53) :
    d < s.grow d ↔ ((Binary64.ofNat d).mul s.multiplier).value.AtLeast (d + 1 / 2) := by
  have half : ((d + 1 : Nat) : ℚ) - 1 / 2 = d + 1 / 2 := by
    push_cast
    ring
  rw [← half]
  exact le_grow_iff d.succ_pos small

/-- A delay that a factor above one does not prolong by a unit leaves a bit for halves. -/
theorem lt_of_mul_lt (factor : s.multiplier.value.Is p) (above : 1 < p) (less : d * p < d + 1) :
    d < 2 ^ 52 := by
  have apart := Binary64.one_add_le factor above
  have unit : (2 : ℚ) ^ (-52 : Int) * 2 ^ 52 = 1 := by norm_num
  have unit_pos := Rounds.unit_pos (-52)
  have : (d : ℚ) * 2 ^ (-52 : Int) < 2 ^ 52 * 2 ^ (-52 : Int) := by nlinarith
  exact_mod_cast lt_of_mul_lt_mul_right this unit_pos.le

/-- **A delay grows** under a factor that adds half a millisecond to it. -/
theorem lt_grow_of_half (pos : 0 < d) (small : d < 2 ^ 53)
    (factor : s.multiplier.value.AtLeast (1 + 1 / (2 * d))) : d < s.grow d := by
  have d_pos : (0 : ℚ) < d := Nat.cast_pos.mpr pos
  have half : (d : ℚ) * (1 + 1 / (2 * d)) = d + 1 / 2 := by field_simp
  have above : (1 : ℚ) < 1 + 1 / (2 * d) := by
    have : (0 : ℚ) < 1 / (2 * d) := by positivity
    linarith
  rcases factor.infinite_or_is (by linarith) with infinite | ⟨p, is, le⟩
  · exact le_grow_of_infinite pos small infinite small
  · have p_above : 1 < p := above.trans_le le
    have reached : d + 1 / 2 ≤ d * p := half ▸ mul_le_mul_of_nonneg_left le d_pos.le
    rcases le_or_gt ((d : ℚ) + 1) (d * p) with whole | less
    · exact le_grow_of_le pos small is (by linarith) small (by exact_mod_cast whole)
    · exact (lt_grow_iff small).mpr ((nearest_product pos small is (by linarith)).atLeast_of_le
        (representable_half (lt_of_mul_lt is p_above less)) reached)

/-- **A delay does not grow** under a factor that adds too little to it. -/
theorem grow_le_of_lt (pos : 0 < d) (small : d < 2 ^ 53) (factor : s.multiplier.value.AtLeast 1)
    (little : ¬ s.multiplier.value.AtLeast ((1 + 1 / (2 * d)) * (1 - 2 ^ (-53 : Int)))) :
    s.grow d ≤ d := by
  rcases factor.infinite_or_is one_pos with infinite | ⟨p, is, le⟩
  · exact absurd (by rw [infinite]; rfl) little
  have d_pos : (1 : ℚ) ≤ d := by exact_mod_cast pos
  have within : (d : ℚ) + 1 ≤ 2 ^ 53 := by exact_mod_cast small
  rw [is.atLeast_iff, not_le] at little
  have product : (d : ℚ) * p < (d + 1 / 2) * (1 - 2 ^ (-53 : Int)) := by
    have half : (d : ℚ) * (1 + 1 / (2 * d)) = d + 1 / 2 := by field_simp
    calc (d : ℚ) * p < d * ((1 + 1 / (2 * d)) * (1 - 2 ^ (-53 : Int))) :=
          mul_lt_mul_of_pos_left little (by linarith)
      _ = (d + 1 / 2) * (1 - 2 ^ (-53 : Int)) := by rw [← mul_assoc, half]
  have product_le : (1 : ℚ) ≤ d * p := by nlinarith
  norm_num at product
  obtain ⟨unit, n, rounds, value⟩ :=
    (nearest_product pos small is (by linarith)).exists_is (by norm_num; linarith)
  rw [← Nat.not_lt, lt_grow_iff small, value.atLeast_iff, not_le]
  -- Half a unit is too little to make up for what is missing to the next half.
  have half_unit : (2 : ℚ) ^ unit / 2 ≤ d * p * 2 ^ (-53 : Int) := by
    rcases rounds.low with rfl | low
    · calc (2 : ℚ) ^ (-1074 : Int) / 2 ≤ 2 ^ (-1074 : Int) := half_le_self (Rounds.unit_pos _).le
        _ ≤ 2 ^ (-53 : Int) := zpow_le_zpow_right₀ one_le_two (by decide)
        _ ≤ d * p * 2 ^ (-53 : Int) := le_mul_of_one_le_left (Rounds.unit_pos _).le product_le
    · rw [zpow_add₀ two_ne_zero] at low
      norm_num at low ⊢
      linarith
  have below := rounds.below
  norm_num at half_unit
  linarith

/-- **A delay grows when a shorter one does**, under a factor above one. -/
theorem lt_grow_of_lt (pos : 0 < d) (longer : d < e) (small : e < 2 ^ 53)
    (factor : s.multiplier.value.Above 1) (grows : d < s.grow d) : e < s.grow e := by
  rcases factor.infinite_or_is one_pos with infinite | ⟨p, is, above⟩
  · exact le_grow_of_infinite (pos.trans longer) small infinite small
  have p_pos : 0 < p := by linarith
  rcases le_or_gt ((e : ℚ) + 1) (e * p) with whole | less
  · exact le_grow_of_le (pos.trans longer) small is p_pos small (by exact_mod_cast whole)
  have e_small := lt_of_mul_lt is above less
  have bounds : (1 : ℚ) ≤ d ∧ (d : ℚ) + 1 ≤ e ∧ (e : ℚ) + 1 ≤ 2 ^ 52 := by
    exact_mod_cast And.intro pos (And.intro longer e_small)
  obtain ⟨d_pos, d_lt, e_lt⟩ := bounds
  have shorter : (d : ℚ) * p < e * p := mul_lt_mul_of_pos_right (by linarith) p_pos
  obtain ⟨unit, n, rounds, value⟩ := (nearest_product pos (longer.trans small) is p_pos).exists_is
    (by linarith)
  obtain ⟨unit', n', rounds', value'⟩ := (nearest_product (pos.trans longer) small is p_pos).exists_is
    (by linarith)
  rw [lt_grow_iff (longer.trans small), value.atLeast_iff] at grows
  rw [lt_grow_iff small, value'.atLeast_iff]
  -- The longer delay is counted in units that are no smaller, so that rounding gains it as much.
  have coarser : unit ≤ unit' := by
    have exponent : unit' + 1 + 52 = unit' + 53 := by omega
    have less := rounds.unit_lt (k := unit' + 1) (by have := rounds'.least; omega)
      (exponent ▸ shorter.trans rounds'.high)
    omega
  have unit_le : (2 : ℚ) ^ unit ≤ 2 ^ unit' := zpow_le_zpow_right₀ one_le_two coarser
  have unit_lt : (2 : ℚ) ^ unit < 1 := by
    have negative := rounds.unit_lt (k := 0) (by decide) (by norm_num; linarith)
    simpa using zpow_lt_zpow_right₀ (one_lt_two (α := ℚ)) negative
  refine rounds'.le_of_lt_add (representable_half e_small) ?_
  have gained := grows.trans rounds.below
  have more : (d : ℚ) * (p - 1) < e * (p - 1) := mul_lt_mul_of_pos_right (by linarith) (by linarith)
  linarith

/-! ### One after another -/

/-- The delay that stands after so many others have been taken. -/
def delayAfter (s : PollSchedule) (taken : Nat) : Nat := (advance^[taken] s).nextDelay

/-- Taking delays leaves all but the next delay as it is. -/
theorem iterate_advance (s : PollSchedule) (taken : Nat) :
    advance^[taken] s = { s with nextDelay := s.delayAfter taken } := by
  induction taken with
  | zero => rfl
  | succ taken ih =>
    rw [delayAfter, Function.iterate_succ_apply', ih]
    rfl

/-- The delays of a schedule are answered one after another, each cut short at the deadline. -/
theorem next_iterate_advance (s : PollSchedule) (taken : Nat) {now : Nat} (early : now < s.deadline) :
    (advance^[taken] s).next now
      = some (min (Duration.ofMillis (s.delayAfter taken)).nanos (s.deadline - now),
          advance^[taken + 1] s) := by
  rw [Function.iterate_succ_apply', iterate_advance, next, if_pos early]

/-- A schedule **backs off** when its delays increase until they are the longest, and stay there. -/
def BacksOff (s : PollSchedule) : Prop :=
  ∃ n, (∀ k < n, s.delayAfter k < s.delayAfter (k + 1)) ∧ ∀ k, n ≤ k → s.delayAfter k = s.maxDelay

/-- A schedule **stands still** when all its delays are the first one. -/
def StandsStill (s : PollSchedule) : Prop := ∀ k, s.delayAfter k = s.nextDelay

/-- A schedule stands still when the next delay is the last one again. -/
theorem standsStill_of_min_eq (same : min (s.grow s.nextDelay) s.maxDelay = s.nextDelay) :
    s.StandsStill := by
  have fixed : s.advance = s := by rw [advance, same]
  intro k
  rw [delayAfter, Function.iterate_fixed fixed]

/-- A schedule backs off when its first delay is the longest or grows. -/
theorem backsOff_of_grows (pos : 0 < s.nextDelay) (within : s.nextDelay ≤ s.maxDelay)
    (bounded : s.maxDelay < 2 ^ 53) (factor : s.multiplier.value.Above 1)
    (grows : s.nextDelay < s.maxDelay → s.nextDelay < s.grow s.nextDelay) : s.BacksOff := by
  -- By induction on how far the delay is from the longest one.
  induction room : s.maxDelay - s.nextDelay using Nat.strong_induction_on generalizing s with
  | _ room ih =>
    rcases Nat.lt_or_eq_of_le within with shorter | longest
    · have later : s.nextDelay < s.advance.nextDelay := lt_min (grows shorter) shorter
      have within' : s.advance.nextDelay ≤ s.maxDelay := Nat.min_le_right _ _
      obtain ⟨n, increasing, stays⟩ := ih (s.maxDelay - s.advance.nextDelay) (by omega)
        (s := s.advance) (pos.trans later) within' bounded factor
        (fun less => lt_grow_of_lt pos later (less.trans bounded) factor (grows shorter)) rfl
      refine ⟨n + 1, fun k less => ?_, fun k le => ?_⟩
      · cases k with
        | zero => exact later
        | succ k => exact increasing k (Nat.lt_of_succ_lt_succ less)
      · cases k with
        | zero => omega
        | succ k => exact stays k (Nat.le_of_succ_le_succ le)
    · have grown : s.nextDelay ≤ s.grow s.nextDelay :=
        le_grow (within.trans_lt bounded) factor.atLeast
      have still : s.StandsStill := standsStill_of_min_eq (by omega)
      exact ⟨0, fun k less => absurd less (Nat.not_lt_zero k), fun k _ => (still k).trans longest⟩

/-- A schedule stands still when its first delay does not grow. -/
theorem standsStill_of_grow_le (within : s.nextDelay ≤ s.maxDelay) (bounded : s.maxDelay < 2 ^ 53)
    (factor : s.multiplier.value.AtLeast 1) (stays : s.grow s.nextDelay ≤ s.nextDelay) :
    s.StandsStill := by
  have grown := le_grow (within.trans_lt bounded) factor
  exact standsStill_of_min_eq (by omega)

/-- A factor of one or more is the factor of the schedule. -/
theorem multiplier_start {settings : PollSettings} {started : Nat}
    (factor : settings.multiplier.value.AtLeast 1) :
    (start settings started).multiplier = settings.multiplier :=
  if_pos ((Binary64.atLeast_iff Binary64.is_one).mpr factor)

/-- **Schedules back off or stand still.** Under a factor above one, the delays increase until they
are the longest, or all of them are the first one. They increase when the factor adds half a
millisecond to the first delay; they stand still when the first delay is zero, or when the factor adds
less to it, by a rounding error of the product. -/
theorem backsOff_or_standsStill {settings : PollSettings} (started : Nat)
    (bounded : settings.maxDelayMs < 2 ^ 53) (factor : settings.multiplier.value.Above 1) :
    ((start settings started).BacksOff ∨ (start settings started).StandsStill) ∧
    (0 < settings.firstDelay → settings.multiplier.value.AtLeast (1 + 1 / (2 * settings.firstDelay)) →
      (start settings started).BacksOff) ∧
    (settings.firstDelay = 0 ∨
        ¬ settings.multiplier.value.AtLeast
          ((1 + 1 / (2 * settings.firstDelay)) * (1 - 2 ^ (-53 : Int))) →
      (start settings started).StandsStill) := by
  have first : settings.firstDelay = (start settings started).nextDelay := rfl
  set s := start settings started
  have multiplier : s.multiplier = settings.multiplier := multiplier_start factor.atLeast
  have within : s.nextDelay ≤ s.maxDelay := Nat.min_le_right _ _
  have small := within.trans_lt bounded
  rw [first, ← multiplier]
  rw [← multiplier] at factor
  have still (stays : s.grow s.nextDelay ≤ s.nextDelay) : s.StandsStill :=
    standsStill_of_grow_le within bounded factor.atLeast stays
  have zero_still (zero : s.nextDelay = 0) : s.StandsStill := still (by rw [zero, grow_zero])
  refine ⟨?_, fun pos adds => ?_, fun little => ?_⟩
  · rcases Nat.eq_zero_or_pos s.nextDelay with zero | pos
    · exact .inr (zero_still zero)
    · rcases Nat.lt_or_ge s.nextDelay (s.grow s.nextDelay) with grows | stays
      · exact .inl (backsOff_of_grows pos within bounded factor fun _ => grows)
      · exact .inr (still stays)
  · exact backsOff_of_grows pos within bounded factor fun _ => lt_grow_of_half pos small adds
  · rcases Nat.eq_zero_or_pos s.nextDelay with zero | pos
    · exact zero_still zero
    · exact still (grow_le_of_lt pos small factor.atLeast (little.resolve_left (Nat.ne_of_gt pos)))

/-- The usual factor is above one. -/
theorem growth_atLeast : PollSettings.growth.value.AtLeast (11 / 10) := by
  have value : PollSettings.growth.value = .finite false 5404319552844595 (-52) := by decide
  rw [value]
  norm_num [FloatValue.AtLeast]

/-- The usual schedule backs off. -/
theorem backsOff_standard :
    PollSettings.standard.maxDelayMs < 2 ^ 53 ∧ PollSettings.standard.multiplier.value.Above 1 ∧
      (start .standard 0).BacksOff := by
  have above : PollSettings.standard.multiplier.value.Above 1 :=
    ⟨11 / 10, by norm_num, growth_atLeast⟩
  refine ⟨by decide, above, (backsOff_or_standsStill 0 (by decide) above).2.1 (by decide) ?_⟩
  refine growth_atLeast.mono ?_
  norm_num [PollSettings.firstDelay, PollSettings.standard]

/-- The usual factor leaves a first delay of one millisecond as it is, although the longest is two. -/
theorem not_backsOff_of_millisecond :
    PollSettings.growth.value.Above 1 ∧
      (start ⟨1, PollSettings.growth, 2, 10⟩ 0).delaysAt [0, 1000000]
        = [some 1000000, some 1000000] ∧
      ¬ (start ⟨1, PollSettings.growth, 2, 10⟩ 0).BacksOff := by
  refine ⟨⟨11 / 10, by norm_num, growth_atLeast⟩, by decide, fun ⟨n, increasing, stays⟩ => ?_⟩
  cases n with
  | zero => exact absurd (stays 0 le_rfl) (by decide)
  | succ n => exact absurd (increasing 0 n.succ_pos) (by decide)

end PollSchedule

end CertifiedCalls
