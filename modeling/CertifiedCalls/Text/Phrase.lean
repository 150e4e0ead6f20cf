import CertifiedCalls.Text.Blank
import CertifiedCalls.Text.DecimalDigit

/-! # Phrases in free text
A **phrase** reads the front of a text and leaves the rest. Words are read without regard to letter
case, and the long s counts as an s, as it does in simple case folding. Phrases are looked for from
left to right, and the leftmost occurrence counts. -/

namespace CertifiedCalls.Text

/-- A **phrase**: what it leaves of a text that starts with it. -/
abbrev Phrase := List Char → Option (List Char)

/-- The letter that stands for all its cases. -/
def foldCase (c : Char) : Char := if c = 'ſ' then 's' else c.toLower

/-- The letters of a word, given in lower case. -/
def letters : List Char → Phrase
  | [], cs => some cs
  | l :: ls, c :: cs => if foldCase c = l then letters ls cs else none
  | _ :: _, [] => none

/-- A word, given in lower case. -/
def word (w : String) : Phrase := letters w.toList

/-- Any number of blanks. -/
def gap : Phrase := fun cs => some (cs.dropWhile isBlank)

/-- At least one blank. -/
def blanksOf : Phrase
  | c :: cs => if isBlank c then some (cs.dropWhile isBlank) else none
  | [] => none

/-- At least one character that is no blank, and all that follow. -/
def token : Phrase
  | c :: cs => if isBlank c then none else some (cs.dropWhile fun c => !isBlank c)
  | [] => none

/-- One character. -/
def mark (m : Char) : Phrase
  | c :: cs => if c = m then some cs else none
  | [] => none

/-- Phrases one after the other. -/
def inTurn : List Phrase → Phrase
  | [], cs => some cs
  | p :: ps, cs => (p cs).bind (inTurn ps)

/-- The first of some phrases that fits. -/
def anyOf (ps : List Phrase) : Phrase := fun cs => ps.findSome? fun p => p cs

/-- A phrase or nothing. -/
def maybe (p : Phrase) : Phrase := fun cs => some ((p cs).getD cs)

/-- What is found at the leftmost place of a text where anything is found. -/
def findIn {α : Type} (find : List Char → Option α) : List Char → Option α
  | [] => find []
  | c :: cs => (find (c :: cs)).orElse fun _ => findIn find cs

/-- What is found right after the first line break after which anything is found. -/
def findAfterBreak {α : Type} (find : List Char → Option α) : List Char → Option α
  | [] => none
  | c :: cs =>
    if c = '\n' then (find cs).orElse fun _ => findAfterBreak find cs else findAfterBreak find cs

/-- What is found at the start of the first line where anything is found. -/
def findAtLine {α : Type} (find : List Char → Option α) (cs : List Char) : Option α :=
  (find cs).orElse fun _ => findAfterBreak find cs

/-- Whether a phrase occurs in a text. -/
def occurs (p : Phrase) (s : String) : Bool := (findIn p s.toList).isSome

/-- The first two runs of decimal digits of a text. -/
def twoNumerals (cs : List Char) : Option (List Char × List Char) :=
  let fromFirst := cs.dropWhile fun c => !isDecimalDigit c
  let first := fromFirst.takeWhile isDecimalDigit
  let fromSecond := (fromFirst.dropWhile isDecimalDigit).dropWhile fun c => !isDecimalDigit c
  let second := fromSecond.takeWhile isDecimalDigit
  if first.isEmpty || second.isEmpty then none else some (first, second)

/-- The first `n` characters of a text, if they are decimal digits. -/
def numeral (n : Nat) (cs : List Char) : Option (List Char) :=
  let front := cs.take n
  if front.length = n ∧ front.all isDecimalDigit then some front else none

end CertifiedCalls.Text
