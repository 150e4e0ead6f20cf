import CertifiedCalls.Text.Concealed

/-! # Quoted text
A **quoted** text stands between double quotes and shows every character as itself but the quote,
the backslash and the concealed characters, which are escaped. -/

namespace CertifiedCalls.Text

/-- The lower-case hexadecimal digits of a number, without leading zeros. -/
def hexNumeral (n : Nat) : List Char := Nat.toDigits 16 n

/-- How a character is written between double quotes. -/
def escape (c : Char) : List Char :=
  if c = '"' then ['\\', '"']
  else if c = '\\' then ['\\', '\\']
  else if c = '\n' then ['\\', 'n']
  else if c = '\r' then ['\\', 'r']
  else if c = '\t' then ['\\', 't']
  else if c = '\x00' then ['\\', '0']
  else if isConcealed c then ['\\', 'u', '\x7b'] ++ hexNumeral c.toNat ++ ['\x7d']
  else [c]

/-- The **quoted** form of a text. -/
def quoted (s : String) : String :=
  String.ofList ('"' :: s.toList.flatMap escape ++ ['"'])

end CertifiedCalls.Text
