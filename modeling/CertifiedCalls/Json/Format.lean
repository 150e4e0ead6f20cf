import CertifiedCalls.Bytes
import CertifiedCalls.Json.Item

/-! # The JSON format
Reading items from text. The format is the strict one: no leading zeros, no control characters in
strings, no comma after the last element, and nothing but blanks around the item. -/

namespace CertifiedCalls.Json

/-- Whether a character is blank between the parts of a text. -/
def isGap (c : Char) : Bool := c = ' ' ∨ c = '\n' ∨ c = '\t' ∨ c = '\r'

/-- A text without its leading blanks. -/
def skipGap (cs : List Char) : List Char := cs.dropWhile isGap

/-! ## Numerals -/

/-- The value of a decimal digit. -/
def digitValue (c : Char) : Nat := c.toNat - 48

/-- The leading digits of a text, and the rest. -/
def readDigits (cs : List Char) : List Nat × List Char :=
  ((cs.takeWhile Char.isDigit).map digitValue, cs.dropWhile Char.isDigit)

/-- The leading digits of a text, of which there is at least one, and the rest. -/
def readSomeDigits (cs : List Char) : Option (List Nat × List Char) :=
  match readDigits cs with
  | ([], _) => none
  | found => some found

/-- Whether digits begin with a zero that says nothing. -/
def hasIdleZero (digits : List Nat) : Bool := digits.head? = some 0 ∧ 1 < digits.length

/-- The digits after a point, if there is one. -/
def readFraction : List Char → Option (List Nat × List Char)
  | '.' :: cs => readSomeDigits cs
  | cs => some ([], cs)

/-- Whether a text begins with a minus sign, and what follows a sign. -/
def readSign : List Char → Bool × List Char
  | '-' :: cs => (true, cs)
  | '+' :: cs => (false, cs)
  | cs => (false, cs)

/-- The exponent after its mark, if there is one. -/
def readExponent : List Char → Option (Option Int × List Char)
  | c :: cs =>
    if c = 'e' ∨ c = 'E' then
      let (isNegative, cs) := readSign cs
      (readSomeDigits cs).map fun (digits, rest) =>
        (some (if isNegative then -(natOfDigits digits : Int) else natOfDigits digits), rest)
    else some (none, c :: cs)
  | [] => some (none, [])

/-- The numeral at the start of a text, after its sign. -/
def readUnsigned (isNegative : Bool) (cs : List Char) : Option (Numeral × List Char) := do
  let (whole, cs) ← readSomeDigits cs
  if hasIdleZero whole then none else
  let (fraction, cs) ← readFraction cs
  let (exponent, cs) ← readExponent cs
  some (⟨isNegative, whole, fraction, exponent⟩, cs)

/-- The **numeral** at the start of a text. -/
def readNumeral : List Char → Option (Numeral × List Char)
  | '-' :: cs => readUnsigned true cs
  | cs => readUnsigned false cs

/-! ## Strings -/

/-- The number of four hexadecimal digits. -/
def hexUnit? (digits : List Char) : Option Nat :=
  (digits.mapM hexValue?).map fun values => values.foldl (fun n d => n * 16 + d) 0

/-- What stands for a character after a backslash. -/
def escapes : List (Char × Nat) := [('"', 0x22), ('\\', 0x5C), ('/', 0x2F), ('b', 0x08), ('f', 0x0C),
  ('n', 0x0A), ('r', 0x0D), ('t', 0x09)]

/-- The code points and surrogates up to the closing quote, and the text after it. -/
def readUnits : List Char → Option (List Nat × List Char)
  | '"' :: cs => some ([], cs)
  | '\\' :: 'u' :: a :: b :: c :: d :: cs => do
    let unit ← hexUnit? [a, b, c, d]
    let (units, rest) ← readUnits cs
    some (unit :: units, rest)
  | '\\' :: c :: cs => do
    let unit ← escapes.lookup c
    let (units, rest) ← readUnits cs
    some (unit :: units, rest)
  | c :: cs => do
    if c.toNat < 0x20 then none else
    let (units, rest) ← readUnits cs
    some (c.toNat :: units, rest)
  | [] => none

/-- Whether a number is the first half of a surrogate pair. -/
def isHighSurrogate (n : Nat) : Bool := 0xD800 ≤ n ∧ n < 0xDC00

/-- Whether a number is the second half of a surrogate pair. -/
def isLowSurrogate (n : Nat) : Bool := 0xDC00 ≤ n ∧ n < 0xE000

/-- The characters of code points and surrogate pairs, unless half of a pair stands alone. -/
def joinSurrogates : List Nat → Option (List Char)
  | [] => some []
  | high :: low :: rest =>
    if isHighSurrogate high then
      if isLowSurrogate low then
        (joinSurrogates rest).map
          (Char.ofNat (0x10000 + (high - 0xD800) * 0x400 + (low - 0xDC00)) :: ·)
      else none
    else if isLowSurrogate high then none
    else (joinSurrogates (low :: rest)).map (Char.ofNat high :: ·)
  | [last] => if isHighSurrogate last ∨ isLowSurrogate last then none else some [Char.ofNat last]

/-- The text up to the closing quote, if it has one, and what follows. -/
def readString (cs : List Char) : Option (Option String × List Char) :=
  (readUnits cs).map fun (units, rest) => ((joinSurrogates units).map String.ofList, rest)

/-! ## Items -/

/-- The name of a member with its colon. -/
def readName (cs : List Char) : Option (Option String × List Char) :=
  match skipGap cs with
  | '"' :: cs =>
    match readString cs with
    | some (name, rest) =>
      match skipGap rest with
      | ':' :: rest => some (name, rest)
      | _ => none
    | none => none
  | _ => none

mutual

/-- The item at the start of a text, read with at most so many steps. -/
def readItem : Nat → List Char → Option (Item × List Char)
  | 0, _ => none
  | steps + 1, cs =>
    match skipGap cs with
    | 'n' :: 'u' :: 'l' :: 'l' :: cs => some (.null, cs)
    | 't' :: 'r' :: 'u' :: 'e' :: cs => some (.bool true, cs)
    | 'f' :: 'a' :: 'l' :: 's' :: 'e' :: cs => some (.bool false, cs)
    | '"' :: cs => (readString cs).map fun (text, rest) => (.string text, rest)
    | '[' :: cs =>
      match skipGap cs with
      | ']' :: cs => some (.array [], cs)
      | cs => (readItems steps cs).map fun (items, rest) => (.array items, rest)
    | '\x7b' :: cs =>
      match skipGap cs with
      | '\x7d' :: cs => some (.object [], cs)
      | cs => (readMembers steps cs).map fun (members, rest) => (.object members, rest)
    | cs => (readNumeral cs).map fun (n, rest) => (.number n, rest)

/-- The items up to the bracket that closes an array. -/
def readItems : Nat → List Char → Option (List Item × List Char)
  | 0, _ => none
  | steps + 1, cs => do
    let (item, rest) ← readItem steps cs
    match skipGap rest with
    | ']' :: rest => some ([item], rest)
    | ',' :: rest => (readItems steps rest).map fun (items, rest) => (item :: items, rest)
    | _ => none

/-- The members up to the brace that closes an object. -/
def readMembers : Nat → List Char → Option (List (Option String × Item) × List Char)
  | 0, _ => none
  | steps + 1, cs => do
    let (name, rest) ← readName cs
    let (item, rest) ← readItem steps rest
    match skipGap rest with
    | '\x7d' :: rest => some ([(name, item)], rest)
    | ',' :: rest =>
      (readMembers steps rest).map fun (members, rest) => ((name, item) :: members, rest)
    | _ => none

end

/-- The **item** that a text writes. Of two steps in a row, one passes over a character. -/
def Item.ofText? (s : String) : Option Item :=
  match readItem (2 * s.length + 1) s.toList with
  | some (item, rest) => if skipGap rest = [] then some item else none
  | none => none

end CertifiedCalls.Json
