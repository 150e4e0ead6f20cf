/-! # Decimal numerals
Natural numbers written in ASCII digits, most significant first. Leading zeros are allowed. -/

namespace CertifiedCalls.Text

/-- The number that a nonempty sequence of ASCII digits writes. -/
def natOfDigits? (cs : List Char) : Option Nat :=
  if cs ≠ [] ∧ cs.all Char.isDigit then
    some (cs.foldl (fun n c => n * 10 + (c.toNat - 48)) 0)
  else none

/-- The number that a text writes in ASCII digits, after a plus sign or without one. -/
def natOfText? (s : String) : Option Nat :=
  match s.toList with
  | '+' :: cs => natOfDigits? cs
  | cs => natOfDigits? cs

end CertifiedCalls.Text
