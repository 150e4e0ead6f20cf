import CertifiedCalls.Text.Concealed

/-! # Blank characters
The characters with the property White_Space. -/

namespace CertifiedCalls.Text

/-- The closed ranges of the blank characters. -/
def blanks : List (Nat × Nat) := [
  (0x9, 0xD), (0x20, 0x20), (0x85, 0x85), (0xA0, 0xA0), (0x1680, 0x1680), (0x2000, 0x200A),
  (0x2028, 0x2029), (0x202F, 0x202F), (0x205F, 0x205F), (0x3000, 0x3000)]

/-- Whether a character is **blank**. -/
def isBlank (c : Char) : Bool := inRanges blanks c.toNat

/-- The blank characters of ASCII are blank. -/
theorem isBlank_of_isWhitespace {c : Char} (h : c.isWhitespace) : isBlank c := by
  simp [Char.isWhitespace] at h
  rcases h with ((rfl | rfl) | rfl) | rfl <;> decide

end CertifiedCalls.Text
