import CertifiedCalls.Decimal.Binary64

/-! # Shortest decimals
The **shortest decimal** of a floating-point word is the number with the fewest digits that rounds
to the word, and of those the one nearest to it, a tie going up. It is always written positionally,
without an exponent and without a point for whole numbers. -/

namespace CertifiedCalls

/-- The reals that round to one word, in quarters of its unit: everything is a multiple of
`1 / den`. -/
structure RoundingInterval where
  /-- The word's own value. -/
  value : Nat
  /-- The least real that rounds to it. -/
  low : Nat
  /-- The greatest real that rounds to it. -/
  high : Nat
  /-- The common denominator. -/
  den : Nat
  /-- Whether the two ends round to it too. -/
  closed : Bool

namespace RoundingInterval

/-- The interval of `significand · 2 ^ exponent` in a format. Below a power of two the words lie
half as far apart. -/
def ofWord (f : BinaryFormat) (significand : Nat) (exponent : Int) : RoundingInterval :=
  let quarters := 4 * significand
  let gap := if significand = f.hidden ∧ f.leastUnit < exponent then 1 else 2
  let scale (n : Nat) : Nat := if 2 ≤ exponent then n <<< (exponent - 2).toNat else n
  { value := scale quarters
    low := scale (quarters - gap)
    high := scale (quarters + 2)
    den := if 2 ≤ exponent then 1 else 1 <<< (2 - exponent).toNat
    closed := significand % 2 == 0 }

/-- The multiple of `10 ^ place` nearest to the value among its two neighbours that lie in the
interval, as a count of that power. -/
def multiple? (r : RoundingInterval) (place : Int) : Option Nat :=
  let up := Nat.pow 10 (-place).toNat
  let den := r.den * Nat.pow 10 place.toNat
  let below := r.value * up / den
  let rest := r.value * up % den
  let fits (a b : Nat) : Bool := if r.closed then a ≤ b else a < b
  let belowFits := fits (r.low * up) (below * den)
  let aboveFits := fits ((below + 1) * den) (r.high * up)
  if aboveFits && (!belowFits || den ≤ 2 * rest) then some (below + 1)
  else if belowFits then some below
  else none

/-- The first place, going down from `start`, at which a multiple lies in the interval, with that
multiple. After `steps` places the value itself is one. -/
def search (r : RoundingInterval) (start : Int) : Nat → Nat × Int
  | 0 => ((r.multiple? start).getD 0, start)
  | steps + 1 =>
    match r.multiple? start with
    | some digits => (digits, start)
    | none => r.search (start - 1) steps

end RoundingInterval

/-- The digits and the place of the shortest decimal of `significand · 2 ^ exponent`. -/
def shortestDecimal (f : BinaryFormat) (significand : Nat) (exponent : Int) : Nat × Int :=
  let r := RoundingInterval.ofWord f significand exponent
  let start := (Nat.toDigits 10 (r.value / r.den)).length
  r.search start (start + (-exponent).toNat)

/-- The positional numeral of `digits · 10 ^ place`. -/
def positional (digits : Nat) (place : Int) : List Char :=
  let numeral := Nat.toDigits 10 digits
  if 0 ≤ place then numeral ++ List.replicate place.toNat '0'
  else
    let after := (-place).toNat
    if after < numeral.length then
      numeral.take (numeral.length - after) ++ '.' :: numeral.drop (numeral.length - after)
    else ['0', '.'] ++ List.replicate (after - numeral.length) '0' ++ numeral

/-- The text of a floating-point value of a format: its shortest decimal, written positionally. -/
def FloatValue.toText (f : BinaryFormat) : FloatValue → String
  | .nan => "NaN"
  | .infinite negative => if negative then "-inf" else "inf"
  | .finite negative significand exponent =>
    let body :=
      if significand = 0 then ['0']
      else
        let (digits, place) := shortestDecimal f significand exponent
        positional digits place
    String.ofList (if negative then '-' :: body else body)

/-- The text of a double. -/
def Binary64.toText (x : Binary64) : String := x.value.toText .double

/-- The text of a single. -/
def Binary32.toText (x : Binary32) : String := x.value.toText .single

end CertifiedCalls
