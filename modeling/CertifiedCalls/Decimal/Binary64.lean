/-! # Binary floating-point numbers
A **binary format** splits a word into a sign, a biased exponent and a fraction. Words are read to
exact values and exact ratios are rounded to the nearest word, ties to the even significand; all
arithmetic is exact in between, so every operation here is correctly rounded. -/

namespace CertifiedCalls

/-- The **layout** of a binary floating-point word. -/
structure BinaryFormat where
  /-- How many bits the fraction has. -/
  fractionBits : Nat
  /-- How many bits the biased exponent has. -/
  exponentBits : Nat
deriving DecidableEq, Repr

/-- The **meaning** of a floating-point word. -/
inductive FloatValue where
  /-- Not a number. -/
  | nan
  /-- An infinity. -/
  | infinite (negative : Bool)
  /-- The number `significand · 2 ^ exponent`, with its sign. -/
  | finite (negative : Bool) (significand : Nat) (exponent : Int)
deriving DecidableEq, Repr

/-- The quotient of two numbers rounded to the nearest integer, a half going to the even one. -/
def roundHalfEven (num den : Nat) : Nat :=
  let q := num / den
  let r := num % den
  if 2 * r < den then q
  else if den < 2 * r then q + 1
  else if q % 2 = 0 then q else q + 1

/-- The quotient of two numbers rounded to the nearest integer, a half going up. -/
def roundHalfUp (num den : Nat) : Nat := (2 * num + den) / (2 * den)

namespace BinaryFormat

/-- The double-precision format. -/
def double : BinaryFormat := ⟨52, 11⟩

/-- The single-precision format. -/
def single : BinaryFormat := ⟨23, 8⟩

/-- The weight of the hidden bit, and the number of fractions. -/
def hidden (f : BinaryFormat) : Nat := 1 <<< f.fractionBits

/-- The exponent field of infinities and of words that are no numbers. -/
def topExponent (f : BinaryFormat) : Nat := 1 <<< f.exponentBits - 1

/-- The exponent of the least positive word's unit. -/
def leastUnit (f : BinaryFormat) : Int :=
  2 - (1 <<< (f.exponentBits - 1) : Nat) - (f.fractionBits : Nat)

/-- The word of the positive infinity. -/
def infinityWord (f : BinaryFormat) : Nat := f.topExponent * f.hidden

/-- The word's bit that makes a number negative. -/
def signWord (f : BinaryFormat) : Nat := 1 <<< (f.fractionBits + f.exponentBits)

/-- The meaning of a word. -/
def read (f : BinaryFormat) (word : Nat) : FloatValue :=
  let fraction := word % f.hidden
  let exponent := word / f.hidden % (f.topExponent + 1)
  let negative := word / f.signWord % 2 == 1
  if exponent = f.topExponent then
    if fraction = 0 then .infinite negative else .nan
  else if exponent = 0 then .finite negative fraction f.leastUnit
  else .finite negative (f.hidden + fraction) (f.leastUnit + (exponent - 1 : Nat))

/-- The word, without its sign, nearest to `num / den`. -/
def nearestWord (f : BinaryFormat) (num den : Nat) : Nat :=
  if num = 0 then 0 else
  let scaled (unit : Int) : Nat × Nat :=
    if 0 ≤ unit then (num, den <<< unit.toNat) else (num <<< (-unit).toNat, den)
  let guess : Int := (num.log2 : Int) - den.log2 - f.fractionBits
  let (n, d) := scaled guess
  let unit := max (if n < d <<< f.fractionBits then guess - 1 else guess) f.leastUnit
  let (n, d) := scaled unit
  min ((unit - f.leastUnit).toNat * f.hidden + roundHalfEven n d) f.infinityWord

/-- The word nearest to `num / den` with the given sign. -/
def nearest (f : BinaryFormat) (negative : Bool) (num den : Nat) : Nat :=
  (if negative then f.signWord else 0) + f.nearestWord num den

end BinaryFormat

/-- A **double-precision number**, told apart from others by its bits. -/
structure Binary64 where
  /-- The word. -/
  bits : UInt64
deriving DecidableEq, Repr

/-- A **single-precision number**, told apart from others by its bits. -/
structure Binary32 where
  /-- The word. -/
  bits : UInt32
deriving DecidableEq, Repr

namespace Binary64

/-- The meaning of a double. -/
def value (x : Binary64) : FloatValue := BinaryFormat.double.read x.bits.toNat

/-- The double nearest to `num / den` with the given sign. -/
def nearest (negative : Bool) (num den : Nat) : Binary64 :=
  ⟨UInt64.ofNat (BinaryFormat.double.nearest negative num den)⟩

/-- The zero with the given sign. -/
def zero (negative : Bool) : Binary64 := nearest negative 0 1

/-- The infinity with the given sign. -/
def infinity (negative : Bool) : Binary64 := if negative then ⟨0xFFF0000000000000⟩ else ⟨0x7FF0000000000000⟩

/-- The canonical word that is no number. -/
def nan : Binary64 := ⟨0x7FF8000000000000⟩

/-- Whether a double is no number. -/
def isNaN (x : Binary64) : Bool := x.value == .nan

/-- The double nearest to a natural number. -/
def ofNat (n : Nat) : Binary64 := nearest false n 1

/-- The double nearest to an integer. -/
def ofInt (i : Int) : Binary64 := nearest (i < 0) i.natAbs 1

/-- The double nearest to `± significand · 2 ^ exponent`. -/
def ofScaled (negative : Bool) (significand : Nat) (exponent : Int) : Binary64 :=
  if 0 ≤ exponent then nearest negative (significand <<< exponent.toNat) 1
  else nearest negative significand (1 <<< (-exponent).toNat)

/-- The double of a meaning. -/
def ofValue : FloatValue → Binary64
  | .nan => nan
  | .infinite negative => infinity negative
  | .finite negative significand exponent => ofScaled negative significand exponent

/-- The product, correctly rounded. -/
def mul (x y : Binary64) : Binary64 :=
  match x.value, y.value with
  | .nan, _ | _, .nan => nan
  | .infinite s, .infinite t => infinity (s != t)
  | .infinite s, .finite t m _ | .finite t m _, .infinite s =>
    if m = 0 then nan else infinity (s != t)
  | .finite s m e, .finite t n g => ofScaled (s != t) (m * n) (e + g)

/-- Numeric equality: nothing equals a word that is no number, and the two zeros are equal. -/
def same (x y : Binary64) : Bool :=
  match x.value, y.value with
  | .nan, _ | _, .nan => false
  | .finite _ 0 _, .finite _ 0 _ => true
  | _, _ => x.bits == y.bits

/-- Whether the first number is at least the second; false when either is no number. -/
def atLeast (x y : Binary64) : Bool :=
  let rational : FloatValue → Option (Bool × Nat × Int)
    | .finite s m e => some (s, m, e)
    | _ => none
  match x.value, y.value with
  | .nan, _ | _, .nan => false
  | .infinite false, _ | _, .infinite true => true
  | .infinite true, _ | _, .infinite false => false
  | vx, vy =>
    match rational vx, rational vy with
    | some (s, m, e), some (t, n, g) =>
      let low := min e g
      let a : Int := (m <<< (e - low).toNat : Nat)
      let b : Int := (n <<< (g - low).toNat : Nat)
      (if t then -b else b) ≤ (if s then -a else a)
    | _, _ => false

/-- The nearest natural number below the given bound, a half going up: words that are no number and
negative numbers give zero, and what is too large gives the bound. -/
def roundToNat (bound : Nat) (x : Binary64) : Nat :=
  match x.value with
  | .nan => 0
  | .infinite negative => if negative then 0 else bound
  | .finite true _ _ => 0
  | .finite false m e =>
    min bound (if 0 ≤ e then m <<< e.toNat else roundHalfUp m (1 <<< (-e).toNat))

end Binary64

namespace Binary32

/-- The meaning of a single. -/
def value (x : Binary32) : FloatValue := BinaryFormat.single.read x.bits.toNat

/-- The double of the same value. -/
def widen (x : Binary32) : Binary64 := Binary64.ofValue x.value

end Binary32

end CertifiedCalls
