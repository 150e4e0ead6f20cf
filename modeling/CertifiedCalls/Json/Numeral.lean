import CertifiedCalls.Decimal.Binary64

/-! # JSON numerals
A **numeral** keeps the digits of a number as they are written. It names a natural number if it has
neither sign, fraction nor exponent. Every numeral names the double nearest to the number that it
writes, a tie going to the even significand, unless that is too large for a double. -/

namespace CertifiedCalls.Json

/-- A JSON **numeral**. -/
structure Numeral where
  /-- Whether it begins with a minus sign. -/
  isNegative : Bool
  /-- The digits before the point. -/
  whole : List Nat
  /-- The digits after the point; none if there is no point. -/
  fraction : List Nat
  /-- The exponent, if there is one. -/
  exponent : Option Int
deriving DecidableEq, Repr

/-- The number that digits write. -/
def natOfDigits (digits : List Nat) : Nat := digits.foldl (fun n d => n * 10 + d) 0

/-- The bound of the numbers that a word holds. -/
def wordBound : Nat := 18446744073709551616

/-- The double nearest to `n · 10 ^ place`. -/
def nearestDecimal (n : Nat) (place : Int) : Binary64 :=
  if 0 ≤ place then .nearest false (n * Nat.pow 10 place.toNat) 1
  else .nearest false n (Nat.pow 10 (-place).toNat)

namespace Numeral

/-- The natural number that a numeral names, if it is below the bound. -/
def nat? (bound : Nat) (n : Numeral) : Option Nat :=
  if n.isNegative ∨ n.fraction ≠ [] ∨ n.exponent.isSome then none
  else if natOfDigits n.whole < bound then some (natOfDigits n.whole)
  else none

/-- All digits of a numeral, without the point. -/
def digits (n : Numeral) : List Nat := n.whole ++ n.fraction

/-- The power of ten that the last digit counts. -/
def place (n : Numeral) : Int := n.exponent.getD 0 - n.fraction.length

/-- The size of the double that a numeral names, unless it is too large. Powers of ten are computed
only where they matter: `10 ^ 309` exceeds every double, and a number below `10 ^ (-324)` is nearer
to zero than to the least positive double. -/
def magnitude? (n : Numeral) : Option Binary64 :=
  let significand := natOfDigits n.digits
  if significand = 0 ∨ n.place + n.digits.length ≤ -324 then some (.zero false)
  else if 309 ≤ n.place then none
  else
    let x := nearestDecimal significand n.place
    if x = .infinity false then none else some x

/-- The double that a numeral names, unless it is too large. -/
def double? (n : Numeral) : Option Binary64 :=
  n.magnitude?.map fun x => if n.isNegative then x.mul (.ofInt (-1)) else x

end Numeral

end CertifiedCalls.Json
