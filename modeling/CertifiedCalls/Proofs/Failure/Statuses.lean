import CertifiedCalls.Proofs.Failure.Sizes
import Mathlib

/-! # Statuses that messages state
A line of a message states a status where it names a status, goes on with a colon and then with a
numeral of at least three digits (`States`). The first such line counts. Only the first three digits are
read: what is told is the number that they write, and so the whole numeral when there are no more of
them (`classify_tellsStatus_iff`). -/

namespace CertifiedCalls

open Text

/-- A cause **tells** a status when it refuses authorization for it, or is transient with a code of its
own. -/
def CallFailure.TellsStatus (code : Nat) : CallFailure → Prop
  | .authorizationFailed (.status c) _ => c = code
  | .transient c _ => c = code ∧ code ≠ defaultCode
  | _ => False

namespace TransportFailure

variable {cs run : List Char} {code : Nat} {message : String} {B : List Char → Prop}

/-! ### The phrase -/

/-- The names of a status. -/
def statusNames : Language Char :=
  spelling "http" * (someSpacing * (spelling "status" * (someSpacing * spelling "code"))) +
    spelling "code"

/-- The names of a status are told apart. -/
theorem reads_statusNames :
    Reads (anyOf [inTurn [word "http", blanksOf, word "status", blanksOf, word "code"], word "code"])
      statusNames B := by
  have code : UnspacedBefore (spelling "code") B := (opens_spelling _).unspaced (by decide)
  have status : UnspacedBefore (spelling "status" * (someSpacing * spelling "code")) B :=
    (opens_spelling _).mul.unspaced (by decide)
  have statusCode := (reads_word "status").andThen (reads_blanksOf.cons (reads_word _).inTurn code)
  have http := (reads_word "http").andThen (reads_blanksOf.cons statusCode status)
  refine http.orElse (reads_word _).anyOf (PassesOver.cons ?_)
  exact (opens_spelling _).passesOver (by decide)

/-- A heading: a name of a status and a colon, with blanks before, between and after. -/
def statusHeading : Language Char := spacing * (statusNames * (spacing * (single ':' * spacing)))

/-- The phrase about statuses is a heading, up to what is not blank. -/
theorem reads_statusLine : Reads statusLine statusHeading Unspaced := by
  have colon : UnspacedBefore (single ':' * spacing) Unspaced := by
    rintro _ ⟨_, rfl, blanks, _, rfl⟩ rest _ _ ⟨⟩
    decide
  have names : UnspacedBefore (statusNames * (spacing * (single ':' * spacing))) Unspaced := by
    rw [statusNames, add_mul]
    exact ((opens_spelling _).mul.mul.unspaced (by decide)).add
      ((opens_spelling _).mul.unspaced (by decide))
  have mark := reads_gap.cons ((reads_mark _).andThen reads_gap.inTurn) colon
  exact reads_gap.cons (reads_statusNames.andThen mark) names

/-! ### The number -/

/-- A line **states** a run of digits when it begins with a heading and goes on with them. -/
def States (run line : List Char) : Prop :=
  ∃ heading ∈ statusHeading, ∃ after, heading ++ (run ++ after) = line ∧ Run run after

/-- A message **states** a status by its first line that states at least three digits: the number that
they write, or the one that the first three of more digits write. -/
def StatesStatus (message : String) (code : Nat) : Prop :=
  ∃ line run,
    FirstOf (linesFrom message.toList) (fun line => ∃ run, States run line ∧ 3 ≤ run.length) line ∧
    States run line ∧
    (run.length = 3 ∧ Writes run code ∨ 3 < run.length ∧ Writes (run.take 3) code)

/-- What is read of a line are the first three digits that it states. -/
theorem bind_statusLine_eq_some_iff {digits : List Char} :
    (statusLine cs).bind (numeral 3) = some digits ↔
      ∃ run, States run cs ∧ 3 ≤ run.length ∧ run.take 3 = digits := by
  have runs {rest : List Char} (long : 3 ≤ (rest.takeWhile isDecimalDigit).length) :
      Run (rest.takeWhile isDecimalDigit) (rest.dropWhile isDecimalDigit) :=
    run_takeWhile (List.ne_nil_of_length_pos (by omega))
  have unspaced {rest digits : List Char} (h : numeral 3 rest = some digits) : Unspaced rest := by
    have front := (runs (numeral_eq_some_iff.mp h).1).unspaced (rest.dropWhile isDecimalDigit)
    rwa [List.takeWhile_append_dropWhile] at front
  -- A heading takes all blanks behind its colon, so it is read whole only in front of what is not blank.
  rw [reads_statusLine.bind_eq_some_iff unspaced]
  constructor
  · rintro ⟨heading, mem, rest, rfl, h⟩
    obtain ⟨long, eq⟩ := numeral_eq_some_iff.mp h
    refine ⟨_, ⟨heading, mem, _, ?_, runs long⟩, long, eq⟩
    rw [List.takeWhile_append_dropWhile]
  · rintro ⟨run, ⟨heading, mem, after, rfl, isRun⟩, long, eq⟩
    refine ⟨heading, mem, _, rfl, ?_⟩
    rw [numeral_eq_some_iff, isRun.takeWhile_append]
    exact ⟨long, eq⟩

/-- Of three digits all are read, and of more the first three. -/
theorem writes_take_three_iff : 3 ≤ run.length ∧ Writes (run.take 3) code ↔
    run.length = 3 ∧ Writes run code ∨ 3 < run.length ∧ Writes (run.take 3) code := by
  constructor
  · rintro ⟨long, writes⟩
    rcases Nat.eq_or_lt_of_le long with three | more
    · rw [List.take_of_length_le three.ge] at writes
      exact .inl ⟨three.symm, writes⟩
    · exact .inr ⟨more, writes⟩
  · rintro (⟨three, writes⟩ | ⟨more, writes⟩)
    · exact ⟨three.ge, by rwa [List.take_of_length_le three.le]⟩
    · exact ⟨more.le, writes⟩

/-- The status that is read of a message is the one that it states. -/
theorem statedStatus_eq_some_iff : statedStatus message = some code ↔ StatesStatus message code := by
  have finds (line : List Char) : (∃ run, States run line ∧ 3 ≤ run.length) ↔
      ∃ digits, (statusLine line).bind (numeral 3) = some digits := by
    simp only [bind_statusLine_eq_some_iff]
    exact ⟨fun ⟨run, states, long⟩ => ⟨_, run, states, long, rfl⟩,
      fun ⟨_, run, states, long, _⟩ => ⟨run, states, long⟩⟩
  rw [statedStatus, findAtLine_eq_findSome?, Option.bind_eq_some_iff]
  simp only [StatesStatus, ← writes_take_three_iff, findSome?_eq_some_iff_firstOf finds,
    bind_statusLine_eq_some_iff, natOfDigits?_eq_some_iff]
  constructor
  · rintro ⟨_, ⟨line, isFirst, run, states, long, rfl⟩, writes⟩
    exact ⟨line, run, isFirst, states, long, writes⟩
  · rintro ⟨line, run, isFirst, states, long, writes⟩
    exact ⟨_, ⟨line, isFirst, run, states, long, rfl⟩, writes⟩

/-! ### Classification -/

/-- **Statuses are read by three digits.** A failure without a status of its own tells a status exactly
when nothing else explains it and its message states this one, which is not the default code. The first
line that states at least three digits counts, and the status is the number that they write; of more than
three digits it is only the number that the first three write. -/
theorem classify_tellsStatus_iff (message : String) (code : Nat) :
    (ofMessage message).classify.TellsStatus code ↔
      (ofMessage message).Unexplained ∧ StatesStatus message code ∧
        code ≠ CallFailure.defaultCode := by
  rw [← statedStatus_eq_some_iff]
  have classified := (ofMessage message).classified
  generalize (ofMessage message).classify = cause at classified
  cases classified with
  | unknown unknown => exact iff_of_false id fun h => h.1.reachable unknown
  | invalid _ invalid => exact iff_of_false id fun h => h.1.valid invalid
  | large _ _ sizes => exact iff_of_false id fun h => nomatch h.1.small.symm.trans sizes
  | behind _ _ _ behind => exact iff_of_false id fun h => h.1.current behind
  | @refused c unexplained stated unauthorized =>
    -- The default code is not one that refuses authorization.
    have own : c ≠ CallFailure.defaultCode := by
      rintro rfl
      exact absurd unauthorized (by decide)
    constructor
    · rintro rfl
      exact ⟨unexplained, stated, own⟩
    · rintro ⟨-, stated', -⟩
      exact Option.some.inj (stated.symm.trans stated')
  | @passing c unexplained stated _ =>
    constructor
    · rintro ⟨rfl, own⟩
      exact ⟨unexplained, stated, own⟩
    · rintro ⟨-, stated', own⟩
      exact ⟨Option.some.inj (stated.symm.trans stated'), own⟩
  | unstated _ stated =>
    exact iff_of_false (fun h => h.2 h.1.symm) fun h => nomatch stated.symm.trans h.2.1

/-- A numeral of four digits is taken for the status of its first three, and a call that could be tried
again is not. -/
theorem classify_longNumeral :
    (ofMessage "Code: 4031").classify = .authorizationFailed (.status 403) "Code: 4031" ∧
      ¬ (ofMessage "Code: 4031").classify.isRetryable ∧
      ∀ line ∈ linesFrom "Code: 4031".toList, ∀ run, States run line → ¬ Writes run 403 := by
  refine ⟨by decide, by decide, ?_⟩
  rintro line mem run ⟨heading, heads, after, split, isRun⟩ writes
  -- Whatever heading the only line is split at, all four digits follow.
  obtain rfl : line = "Code: 4031".toList := by
    simpa [linesFrom, afterBreaks] using mem
  have read := reads_statusLine.complete heads (isRun.unspaced after)
  have same : statusLine "Code: 4031".toList = some "4031".toList := by decide
  rw [split, same, Option.some.injEq] at read
  have digits := isRun.takeWhile_append
  rw [← read] at digits
  have value := writes.value
  rw [← digits] at value
  exact absurd value (by decide)

end TransportFailure

end CertifiedCalls
