import CertifiedCalls.Text.Phrase
import Mathlib

/-! # Letters, blanks and digits
No ASCII letter is a blank or a digit of any script, and no digit is a blank. So a character that is
only changed in its case stays blank, a digit or neither, and still counts as the same letter of a
word (`CaseAlike`). -/

namespace CertifiedCalls.Text

/-! ### Ranges -/

/-- Two tables of ranges have no code point in common. -/
def Apart (as bs : List (Nat × Nat)) : Prop := ∀ a ∈ as, ∀ b ∈ bs, a.2 < b.1 ∨ b.2 < a.1

instance (as bs : List (Nat × Nat)) : Decidable (Apart as bs) :=
  inferInstanceAs (Decidable (∀ a ∈ as, ∀ b ∈ bs, a.2 < b.1 ∨ b.2 < a.1))

/-- A code point lies in a table when it lies in one of its ranges. -/
theorem inRanges_iff {ranges : List (Nat × Nat)} {n : Nat} :
    inRanges ranges n ↔ ∃ r ∈ ranges, r.1 ≤ n ∧ n ≤ r.2 := by
  simp only [inRanges, List.any_eq_true, Bool.and_eq_true, decide_eq_true_eq]

/-- No code point lies in two tables that are apart. -/
theorem Apart.not_inRanges {as bs : List (Nat × Nat)} (apart : Apart as bs) {n : Nat}
    (h : inRanges as n) : ¬ inRanges bs n := by
  rw [inRanges_iff] at h ⊢
  rintro ⟨b, mem', low', high'⟩
  obtain ⟨a, mem, low, high⟩ := h
  have := apart a mem b mem'
  omega

/-- The ranges of the ASCII letters. -/
def asciiLetters : List (Nat × Nat) := [(0x41, 0x5A), (0x61, 0x7A)]

/-- Letters lie in their ranges. -/
theorem inRanges_of_isAlpha {c : Char} (h : c.isAlpha) : inRanges asciiLetters c.toNat := by
  simp only [Char.isAlpha, Char.isUpper, Char.isLower, Bool.or_eq_true, Bool.and_eq_true,
    decide_eq_true_eq, ge_iff_le, UInt32.le_iff_toNat_le] at h
  rw [inRanges_iff]
  rcases h with upper | lower
  · exact ⟨(0x41, 0x5A), List.mem_cons_self, upper⟩
  · exact ⟨(0x61, 0x7A), List.mem_cons_of_mem _ List.mem_cons_self, lower⟩

/-- Digits lie in their ranges. -/
theorem inRanges_of_isDecimalDigit {c : Char} (h : isDecimalDigit c) :
    inRanges decimalDigits c.toNat := by
  rw [isDecimalDigit] at h
  split at h
  · rw [inRanges_iff]
    exact ⟨(0x30, 0x39), List.mem_cons_self, Char.isDigit_iff_toNat.mp h⟩
  · exact h

variable {c d : Char}

/-- No letter is a blank. -/
theorem not_isBlank_of_isAlpha (h : c.isAlpha) : ¬ isBlank c :=
  have apart : Apart asciiLetters blanks := by decide
  apart.not_inRanges (inRanges_of_isAlpha h)

/-- No letter is a digit. -/
theorem not_isDecimalDigit_of_isAlpha (h : c.isAlpha) : ¬ isDecimalDigit c := fun digit =>
  have apart : Apart asciiLetters decimalDigits := by decide
  apart.not_inRanges (inRanges_of_isAlpha h) (inRanges_of_isDecimalDigit digit)

/-- No digit is a blank. -/
theorem not_isBlank_of_isDecimalDigit (h : isDecimalDigit c) : ¬ isBlank c :=
  have apart : Apart decimalDigits blanks := by decide
  apart.not_inRanges (inRanges_of_isDecimalDigit h)

/-! ### Letter case -/

/-- Two characters are **alike** when they are the same but for the case of an ASCII letter. -/
def CaseAlike (c d : Char) : Prop := c.toLower = d.toLower

/-- Only letters have another case. -/
theorem toLower_eq_self_of_not_isAlpha (h : ¬ c.isAlpha) : c.toLower = c :=
  Char.toLower_eq_of_not_isUpper fun upper => h (by rw [Char.isAlpha, upper, Bool.true_or])

/-- Characters that are alike are the same, or both are letters. -/
theorem CaseAlike.eq_or_isAlpha (h : CaseAlike c d) : c = d ∨ (c.isAlpha ∧ d.isAlpha) := by
  have same : c.isAlpha = d.isAlpha := by
    rw [← Char.isAlpha_toLower_eq_isAlpha c, h, Char.isAlpha_toLower_eq_isAlpha]
  by_cases letter : c.isAlpha
  · exact .inr ⟨letter, same ▸ letter⟩
  · have plain := toLower_eq_self_of_not_isAlpha letter
    have plain' := toLower_eq_self_of_not_isAlpha (same ▸ letter)
    exact .inl (plain ▸ plain' ▸ h)

/-- What holds of no letter holds of a character when it holds of one that is alike. -/
theorem CaseAlike.congr {p : Char → Bool} (plain : ∀ {c : Char}, c.isAlpha → ¬ p c)
    (h : CaseAlike c d) : p c = p d := by
  rcases h.eq_or_isAlpha with rfl | ⟨letter, letter'⟩
  · rfl
  · rw [Bool.eq_false_of_not_eq_true (plain letter), Bool.eq_false_of_not_eq_true (plain letter')]

/-- Characters of which something holds that holds of no letter are the same when they are alike. -/
theorem CaseAlike.eq_of {p : Char → Bool} (plain : ∀ {c : Char}, c.isAlpha → ¬ p c)
    (h : CaseAlike c d) (holds : p c) : c = d :=
  h.eq_or_isAlpha.resolve_right fun letters => plain letters.1 holds

/-- A character that is no letter is only alike to itself. -/
theorem CaseAlike.eq_iff {m : Char} (plain : ¬ m.isAlpha) (h : CaseAlike c d) : c = m ↔ d = m := by
  rcases h.eq_or_isAlpha with rfl | ⟨letter, letter'⟩
  · rfl
  · exact iff_of_false (fun eq => plain (eq ▸ letter)) fun eq => plain (eq ▸ letter')

/-- Characters that are alike count as the same letter of a word. -/
theorem CaseAlike.foldCase_eq (h : CaseAlike c d) : foldCase c = foldCase d := by
  rcases h.eq_or_isAlpha with rfl | ⟨letter, letter'⟩
  · rfl
  · have other {e : Char} (letter : e.isAlpha) : e ≠ 'ſ' := fun eq => by
      subst eq
      exact absurd letter (by decide)
    rw [foldCase, foldCase, if_neg (other letter), if_neg (other letter')]
    exact h

/-- A character is blank when the letter that it counts as is. -/
theorem isBlank_foldCase (c : Char) : isBlank (foldCase c) = isBlank c := by
  rw [foldCase]
  split
  · rename_i long
    subst long
    decide
  · exact CaseAlike.congr not_isBlank_of_isAlpha (Char.toLower_toLower_eq_toLower c)

end CertifiedCalls.Text
