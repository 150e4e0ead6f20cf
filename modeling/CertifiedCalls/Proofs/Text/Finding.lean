import CertifiedCalls.Proofs.Text.Phrases
import CertifiedCalls.Text.Numeral
import Mathlib

/-! # Where phrases and numerals are found
A text is searched from each of its ends, or from each of its lines, and the first one where something
is found counts (`FirstOf`). A numeral is a whole **run** of digits, with no digit before or after it
(`Run`), and two of them are found with no digit in between (`TwoRuns`). -/

namespace CertifiedCalls.Text

variable {α : Type} {find : List Char → Option α} {cs rest digits first second : List Char} {a : α}
  {p : Phrase} {L : Language Char} {B : List Char → Prop} {n : Nat}

/-! ### Places -/

/-- What follows each line break of a text. -/
def afterBreaks : List Char → List (List Char)
  | [] => []
  | c :: cs => if c = '\n' then cs :: afterBreaks cs else afterBreaks cs

/-- The **lines** of a text, each with all that follows it. -/
def linesFrom (cs : List Char) : List (List Char) := cs :: afterBreaks cs

/-- The **first** of some places with a property. -/
def FirstOf (places : List (List Char)) (P : List Char → Prop) (place : List Char) : Prop :=
  ∃ earlier later, places = earlier ++ place :: later ∧ P place ∧ ∀ other ∈ earlier, ¬ P other

/-- A text is searched from each of its ends. -/
theorem findIn_eq_findSome? (find : List Char → Option α) (cs : List Char) :
    findIn find cs = cs.tails.findSome? find := by
  induction cs with
  | nil => exact List.findSome?_singleton.symm
  | cons c cs ih =>
    rw [findIn, List.tails_cons, List.findSome?_cons, ih]
    cases find (c :: cs) <;> rfl

/-- A text is searched from each of its lines. -/
theorem findAtLine_eq_findSome? (find : List Char → Option α) (cs : List Char) :
    findAtLine find cs = (linesFrom cs).findSome? find := by
  have broken : findAfterBreak find cs = (afterBreaks cs).findSome? find := by
    induction cs with
    | nil => rfl
    | cons c cs ih =>
      rw [findAfterBreak, afterBreaks, ih]
      split
      · rw [List.findSome?_cons]
        cases find cs <;> rfl
      · rfl
  rw [findAtLine, linesFrom, List.findSome?_cons, broken]
  cases find cs <;> rfl

/-- What is found among places is found at the first one where something is. -/
theorem findSome?_eq_some_iff_firstOf {places : List (List Char)} {P : List Char → Prop}
    (finds : ∀ place, P place ↔ ∃ a, find place = some a) :
    places.findSome? find = some a ↔ ∃ place, FirstOf places P place ∧ find place = some a := by
  rw [List.findSome?_eq_some_iff]
  constructor
  · rintro ⟨earlier, place, later, split, found, nothing⟩
    refine ⟨place, ⟨earlier, later, split, (finds place).mpr ⟨a, found⟩, fun other mem has => ?_⟩, found⟩
    obtain ⟨a', found'⟩ := (finds other).mp has
    rw [nothing other mem] at found'
    cases found'
  · rintro ⟨place, ⟨earlier, later, split, -, nothing⟩, found⟩
    refine ⟨earlier, place, later, split, found, fun other mem => ?_⟩
    refine Option.eq_none_iff_forall_ne_some.mpr fun a' found' => nothing other mem ?_
    exact (finds other).mpr ⟨a', found'⟩

/-- What is found after a phrase stands after a text of its language. -/
theorem Reads.bind_eq_some_iff (hp : Reads p L B) (meets : ∀ {rest a}, find rest = some a → B rest) :
    (p cs).bind find = some a ↔ ∃ front ∈ L, ∃ rest, front ++ rest = cs ∧ find rest = some a := by
  rw [Option.bind_eq_some_iff]
  constructor
  · rintro ⟨rest, taken, found⟩
    obtain ⟨front, mem, split⟩ := hp.sound taken
    exact ⟨front, mem, rest, split, found⟩
  · rintro ⟨front, mem, rest, rfl, found⟩
    exact ⟨rest, hp.complete mem (meets found), found⟩

/-! ### Numerals -/

/-- Digits are a **run** in front of a text when there are some, all of them are digits, and no other
digit follows. -/
structure Run (digits after : List Char) : Prop where
  /-- There are some. -/
  ne_nil : digits ≠ []
  /-- All of them are digits. -/
  all : ∀ c ∈ digits, isDecimalDigit c
  /-- No other digit follows. -/
  whole : ∀ c ∈ after.head?, ¬ isDecimalDigit c

/-- Two runs **come first** in a text when there is no other digit before them or between them. -/
inductive TwoRuns (first second : List Char) : List Char → Prop
  /-- The text up to the second run, and what follows. -/
  | intro {before between after : List Char} (plain : ∀ c ∈ before, ¬ isDecimalDigit c)
    (run : Run first (between ++ (second ++ after))) (apart : ∀ c ∈ between, ¬ isDecimalDigit c)
    (run' : Run second after) :
    TwoRuns first second (before ++ (first ++ (between ++ (second ++ after))))

/-- Digits **write** a number when they are ASCII digits, some of them, and this is their value. -/
structure Writes (digits : List Char) (n : Nat) : Prop where
  /-- There are some. -/
  ne_nil : digits ≠ []
  /-- All of them are ASCII digits. -/
  all : ∀ c ∈ digits, c.isDigit
  /-- Their value in base ten. -/
  value : Nat.ofDigitChars 10 digits 0 = n

/-- The number of digits is the one that they write. -/
theorem natOfDigits?_eq_some_iff : natOfDigits? cs = some n ↔ Writes cs n := by
  have value : cs.foldl (fun n c => n * 10 + (c.toNat - 48)) 0 = Nat.ofDigitChars 10 cs 0 := by
    rw [Nat.ofDigitChars_eq_foldl]
    simp only [Nat.mul_comm 10]
    rfl
  rw [natOfDigits?, value]
  constructor
  · intro h
    split at h
    · rename_i digits
      exact ⟨digits.1, List.all_eq_true.mp digits.2, Option.some.inj h⟩
    · cases h
  · rintro ⟨some, all, rfl⟩
    rw [if_pos ⟨some, List.all_eq_true.mpr all⟩]

/-- The first character of a run is a digit. -/
theorem Run.head (h : Run digits rest) (more : List Char) :
    ∀ c ∈ (digits ++ more).head?, isDecimalDigit c := by
  obtain ⟨c, tail, rfl⟩ := List.exists_cons_of_ne_nil h.ne_nil
  rintro _ ⟨⟩
  exact h.all c List.mem_cons_self

/-- A run does not begin with a blank. -/
theorem Run.unspaced (h : Run digits rest) (more : List Char) : Unspaced (digits ++ more) :=
  fun c mem => not_isBlank_of_isDecimalDigit (h.head more c mem)

/-- The digits in front of a text are a run, if there are any. -/
theorem run_takeWhile (some : cs.takeWhile isDecimalDigit ≠ []) :
    Run (cs.takeWhile isDecimalDigit) (cs.dropWhile isDecimalDigit) :=
  ⟨some, fun _ => List.mem_takeWhile_imp, fun _ => not_of_mem_head?_dropWhile⟩

/-- A run is all digits in front of a text. -/
theorem Run.takeWhile_append (h : Run digits rest) :
    (digits ++ rest).takeWhile isDecimalDigit = digits :=
  Text.takeWhile_append h.all h.whole

/-- Two runs that come first are the two numerals of a text. -/
theorem TwoRuns.twoNumerals (h : TwoRuns first second cs) :
    twoNumerals cs = some (first, second) := by
  obtain ⟨plain, run, apart, run'⟩ := h
  have start {digits after : List Char} (run : Run digits after) (more : List Char) :
      ∀ c ∈ (digits ++ more).head?, ¬ (!isDecimalDigit c) := fun c mem => by
    simpa using run.head more c mem
  have skip {cs : List Char} (plain : ∀ c ∈ cs, ¬ isDecimalDigit c) : ∀ c ∈ cs, !isDecimalDigit c :=
    fun c mem => by simpa using plain c mem
  have ne_nil : (first.isEmpty || second.isEmpty) = false := by
    simp [run.ne_nil, run'.ne_nil]
  -- Each of the four spans stops exactly where the next one starts.
  simp only [Text.twoNumerals]
  rw [dropWhile_append (skip plain) (start run _), run.takeWhile_append,
    dropWhile_append run.all run.whole, dropWhile_append (skip apart) (start run' _),
    run'.takeWhile_append, ne_nil]
  rfl

/-- Two numerals of a text are the two runs that come first in it. -/
theorem twoNumerals_eq_some_iff : twoNumerals cs = some (first, second) ↔ TwoRuns first second cs := by
  refine ⟨fun h => ?_, TwoRuns.twoNumerals⟩
  simp only [twoNumerals] at h
  set fromFirst := cs.dropWhile fun c => !isDecimalDigit c
  set behind := fromFirst.dropWhile isDecimalDigit
  set fromSecond := behind.dropWhile fun c => !isDecimalDigit c
  split at h
  · cases h
  · rename_i some
    rw [Bool.or_eq_true, not_or, List.isEmpty_iff, List.isEmpty_iff] at some
    cases h
    have plain {cs : List Char} : ∀ c ∈ cs.takeWhile fun c => !isDecimalDigit c, ¬ isDecimalDigit c :=
      fun c mem => by simpa using List.mem_takeWhile_imp mem
    have run : Run (fromFirst.takeWhile isDecimalDigit) behind := run_takeWhile some.1
    have split : (behind.takeWhile fun c => !isDecimalDigit c) ++
        (fromSecond.takeWhile isDecimalDigit ++ fromSecond.dropWhile isDecimalDigit) = behind := by
      rw [List.takeWhile_append_dropWhile, List.takeWhile_append_dropWhile]
    have two : TwoRuns _ _ ((cs.takeWhile fun c => !isDecimalDigit c) ++ _) :=
      .intro plain (split.symm ▸ run) plain (run_takeWhile some.2)
    rwa [split, List.takeWhile_append_dropWhile, List.takeWhile_append_dropWhile] at two

/-- A numeral of so many digits is the front of a run. -/
theorem numeral_eq_some_iff : numeral n cs = some digits ↔
    n ≤ (cs.takeWhile isDecimalDigit).length ∧ (cs.takeWhile isDecimalDigit).take n = digits := by
  rw [numeral]
  constructor
  · intro h
    split at h
    · rename_i front
      cases h
      have all : ∀ c ∈ cs.take n, isDecimalDigit c := List.all_eq_true.mp front.2
      -- The front is all digits, so the run goes on at least to its end.
      have split : (cs.take n ++ cs.drop n).takeWhile isDecimalDigit = _ :=
        List.takeWhile_append_of_pos all
      rw [List.take_append_drop] at split
      rw [split, List.length_append, front.1, List.take_append_of_le_length front.1.ge,
        List.take_take, Nat.min_self]
      exact ⟨Nat.le_add_right _ _, rfl⟩
    · cases h
  · rintro ⟨long, rfl⟩
    have front : cs.take n = (cs.takeWhile isDecimalDigit).take n := by
      conv_lhs => rw [← List.takeWhile_append_dropWhile (p := isDecimalDigit) (l := cs)]
      exact List.take_append_of_le_length long
    have all : ∀ c ∈ cs.take n, isDecimalDigit c := fun c mem =>
      List.mem_takeWhile_imp (List.mem_of_mem_take (front ▸ mem))
    have length : (cs.take n).length = n := by rw [front, List.length_take_of_le long]
    rw [if_pos ⟨length, List.all_eq_true.mpr all⟩, front]

end CertifiedCalls.Text
