import CertifiedCalls.Proofs.Text.Finding
import Mathlib

/-! # Letter case
A search is **blind** to letter case when it finds in two texts that are the same but for the case of
ASCII letters what corresponds in them (`Blind`). Words, blanks and marks are, whatever is put together
from them is, and numerals are the same in both texts. -/

namespace CertifiedCalls.Text

variable {α : Type} {R : α → α → Prop} {find : List Char → Option α} {cs ds : List Char} {c d m : Char}
  {p : Phrase} {ps : List Phrase} {s : String}

/-- Two texts are **alike** when they are the same but for the case of ASCII letters. -/
abbrev Alike : List Char → List Char → Prop := List.Forall₂ CaseAlike

/-- A search is **blind** to letter case, up to a relation of what it finds. -/
def Blind (R : α → α → Prop) (find : List Char → Option α) : Prop :=
  ∀ cs ds, Alike cs ds → Option.Rel R (find cs) (find ds)

/-! ### Spans -/

/-- What follows the blanks, or the digits, of texts that are alike. -/
theorem Alike.dropWhile {q : Char → Bool} (same : ∀ {c d}, CaseAlike c d → q c = q d)
    (h : Alike cs ds) : Alike (cs.dropWhile q) (ds.dropWhile q) := by
  induction h with
  | nil => exact .nil
  | @cons c d cs ds here _ ih =>
    rw [List.dropWhile_cons, List.dropWhile_cons, ← same here]
    split
    · exact ih
    · exact .cons here ‹_›

/-- The digits of texts that are alike are the same. -/
theorem Alike.takeWhile_eq {q : Char → Bool} (plain : ∀ {c : Char}, c.isAlpha → ¬ q c)
    (h : Alike cs ds) : cs.takeWhile q = ds.takeWhile q := by
  induction h with
  | nil => rfl
  | @cons c d cs ds here _ ih =>
    rw [List.takeWhile_cons, List.takeWhile_cons, ← here.congr plain, ih]
    split
    · rw [here.eq_of plain ‹_›]
    · rfl

/-! ### Phrases -/

/-- Letters of a word are found in any case. -/
theorem blind_letters (ls : List Char) : Blind Alike (letters ls) := by
  intro cs ds h
  induction ls generalizing cs ds with
  | nil => exact .some h
  | cons l ls ih =>
    cases h with
    | nil => exact .none
    | cons here rest =>
      rw [letters, letters, ← here.foldCase_eq]
      split
      · exact ih _ _ rest
      · exact .none

@[simp] theorem blind_word (w : String) : Blind Alike (word w) := blind_letters w.toList

/-- A character is blank when one that is alike is. -/
theorem CaseAlike.isBlank_eq (h : CaseAlike c d) : isBlank c = isBlank d :=
  h.congr not_isBlank_of_isAlpha

@[simp] theorem blind_gap : Blind Alike gap :=
  fun _ _ h => .some (Alike.dropWhile CaseAlike.isBlank_eq h)

@[simp] theorem blind_blanksOf : Blind Alike blanksOf := by
  intro cs ds h
  cases h with
  | nil => exact .none
  | cons here rest =>
    rw [blanksOf, blanksOf, ← here.isBlank_eq]
    split
    · exact .some (Alike.dropWhile CaseAlike.isBlank_eq rest)
    · exact .none

@[simp] theorem blind_token : Blind Alike token := by
  intro cs ds h
  cases h with
  | nil => exact .none
  | cons here rest =>
    rw [token, token, ← here.isBlank_eq]
    split
    · exact .none
    · exact .some (Alike.dropWhile (fun here => congrArg not here.isBlank_eq) rest)

/-- A mark that is no letter is found where it stands. -/
theorem blind_mark (plain : ¬ m.isAlpha) : Blind Alike (mark m) := by
  intro cs ds h
  cases h with
  | nil => exact .none
  | cons here rest =>
    rw [mark, mark]
    simp only [here.eq_iff plain]
    split
    · exact .some rest
    · exact .none

/-- What is searched in what corresponds corresponds. -/
theorem rel_bind {a b : Option (List Char)} (taken : Option.Rel Alike a b) (h : Blind R find) :
    Option.Rel R (a.bind find) (b.bind find) := by
  cases taken with
  | none => exact .none
  | some rest => exact h _ _ rest

/-- What is found here, and else there, corresponds. -/
theorem rel_orElse {a b : Option α} {a' b' : Unit → Option α} (here : Option.Rel R a b)
    (there : Option.Rel R (a' ()) (b' ())) : Option.Rel R (a.orElse a') (b.orElse b') := by
  cases here with
  | none => exact there
  | some same => exact .some same

/-- Phrases in turn are blind when all of them are. -/
@[simp] theorem blind_inTurn (h : ∀ p ∈ ps, Blind Alike p) : Blind Alike (inTurn ps) := by
  induction ps with
  | nil => exact fun _ _ same => .some same
  | cons p ps ih =>
    rw [List.forall_mem_cons] at h
    intro cs ds same
    exact rel_bind (h.1 cs ds same) (ih h.2)

/-- The first of some phrases that fits is blind when all of them are. -/
@[simp] theorem blind_anyOf (h : ∀ p ∈ ps, Blind Alike p) : Blind Alike (anyOf ps) := by
  induction ps with
  | nil => exact fun _ _ _ => .none
  | cons p ps ih =>
    rw [List.forall_mem_cons] at h
    intro cs ds same
    rw [anyOf, anyOf, List.findSome?_cons, List.findSome?_cons]
    have first := h.1 cs ds same
    generalize p cs = a, p ds = b at first
    cases first with
    | none => exact ih h.2 cs ds same
    | some rest => exact .some rest

@[simp] theorem blind_maybe (h : Blind Alike p) : Blind Alike (maybe p) := by
  intro cs ds same
  have taken := h cs ds same
  rw [maybe, maybe]
  generalize p cs = a, p ds = b at taken
  cases taken with
  | none => exact .some same
  | some rest => exact .some rest

/-! ### Searches -/

/-- A search after a phrase is blind when both are. -/
theorem Blind.bind (hp : Blind Alike p) (h : Blind R find) : Blind R fun cs => (p cs).bind find :=
  fun cs ds same => rel_bind (hp cs ds same) h

/-- A search of a text is blind when the search at each place is. -/
theorem Blind.findIn (h : Blind R find) : Blind R (findIn find) := by
  intro cs ds same
  induction same with
  | nil => exact h [] [] .nil
  | cons here rest ih => exact rel_orElse (h _ _ (.cons here rest)) ih

/-- A search of the lines of a text is blind when the search at each line is. -/
theorem Blind.findAtLine (h : Blind R find) : Blind R (findAtLine find) := by
  have broken : Blind R (findAfterBreak find) := by
    intro cs ds same
    induction same with
    | nil => exact .none
    | @cons c d cs ds here rest ih =>
      rw [findAfterBreak, findAfterBreak]
      simp only [here.eq_iff (m := '\n') (by decide)]
      split
      · exact rel_orElse (h _ _ rest) ih
      · exact ih
  exact fun cs ds same => rel_orElse (h cs ds same) (broken cs ds same)

/-- What is found the same is equal. -/
theorem Blind.eq (h : Blind Eq find) (same : Alike cs ds) : find cs = find ds := by
  have found := h cs ds same
  generalize find cs = a, find ds = b at found
  cases found with
  | none => rfl
  | some eq => rw [eq]

/-- A search is blind when it finds the same in texts that are alike. -/
theorem blind_of_eq (h : ∀ {cs ds}, Alike cs ds → find cs = find ds) : Blind Eq find := by
  intro cs ds same
  rw [h same]
  cases find ds with
  | none => exact .none
  | some a => exact .some rfl

/-- Numerals are the same in texts that are alike. -/
theorem blind_numeral (n : Nat) : Blind Eq (numeral n) := blind_of_eq fun same =>
  Option.ext fun digits => by
    -- A numeral is the front of a run, and there are no letters in runs.
    rw [numeral_eq_some_iff, numeral_eq_some_iff, same.takeWhile_eq not_isDecimalDigit_of_isAlpha]

theorem blind_twoNumerals : Blind Eq twoNumerals := blind_of_eq fun same => by
  have digit {c d : Char} (here : CaseAlike c d) : isDecimalDigit c = isDecimalDigit d :=
    here.congr not_isDecimalDigit_of_isAlpha
  have fromFirst := same.dropWhile fun here => congrArg not (digit here)
  have fromSecond := (fromFirst.dropWhile digit).dropWhile fun here => congrArg not (digit here)
  simp only [twoNumerals]
  rw [fromFirst.takeWhile_eq not_isDecimalDigit_of_isAlpha,
    fromSecond.takeWhile_eq not_isDecimalDigit_of_isAlpha]

end CertifiedCalls.Text
