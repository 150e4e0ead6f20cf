import CertifiedCalls.Proofs.Failure.Order
import CertifiedCalls.Proofs.Text.Finding
import Mathlib

/-! # Sizes that messages tell
A message tells the size of a payload and its limit where it names a payload and its size and goes on
with two numerals (`Quotes`). The first such place counts, and both numerals count whole: a failure is
classified by its sizes exactly when both of them are numbers of 64 bits in ASCII digits, and they are
given as they are written (`classify_responsePayloadTooLarge_iff`). -/

namespace CertifiedCalls

open Text

namespace TransportFailure

variable {cs first second : List Char} {n size limit : Nat} {message : String} {B : List Char → Prop}

/-! ### The phrase -/

/-- The names of a payload. -/
def payloadNames : Language Char := spelling "payload" + (spelling "response" + spelling "reply")

/-- The names of its size. -/
def sizeNames : Language Char := spelling "size" + spelling "too" * (someSpacing * spelling "large")

/-- The names of a payload are told apart. -/
theorem reads_payloadNames :
    Reads (anyOf [word "payload", word "response", word "reply"]) payloadNames B := by
  refine (reads_word _).orElse ((reads_word _).orElse (reads_word _).anyOf ?_) ?_
  · exact (opens_spelling _).passesOver (by decide)
  · exact ((opens_spelling _).passesOver (by decide)).add ((opens_spelling _).passesOver (by decide))

/-- The names of a size are told apart. -/
theorem reads_sizeNames :
    Reads (anyOf [word "size", inTurn [word "too", blanksOf, word "large"]]) sizeNames B := by
  have large : UnspacedBefore (spelling "large") B := (opens_spelling _).unspaced (by decide)
  have tooLarge := (reads_word "too").andThen (reads_blanksOf.cons (reads_word _).inTurn large)
  exact (reads_word _).orElse tooLarge.anyOf ((opens_spelling _).mul.passesOver (by decide))

/-- The phrase about sizes names a payload and its size, with blanks in between or without. -/
theorem reads_payloadSize : Reads payloadSize (payloadNames * (spacing * sizeNames)) B := by
  have unspaced : UnspacedBefore sizeNames B :=
    ((opens_spelling _).unspaced (by decide)).add ((opens_spelling _).mul.unspaced (by decide))
  exact reads_payloadNames.andThen (reads_gap.cons reads_sizeNames.inTurn unspaced)

/-! ### The numbers -/

/-- A text **quotes** two numerals when it names a payload and its size and these numerals come first in
what follows. -/
def Quotes (first second cs : List Char) : Prop :=
  ∃ names ∈ payloadNames * (spacing * sizeNames), ∃ rest, names ++ rest = cs ∧
    TwoRuns first second rest

/-- A message **tells** two sizes when the numerals that it quotes first write them, and both are numbers
of 64 bits. -/
def TellsSizes (message : String) (size limit : Nat) : Prop :=
  ∃ place first second,
    FirstOf message.toList.tails (fun place => ∃ first second, Quotes first second place) place ∧
    Quotes first second place ∧ Writes first size ∧ Writes second limit ∧
    size < 2 ^ 64 ∧ limit < 2 ^ 64

/-- What is read after the phrase is quoted. -/
theorem bind_payloadSize_eq_some_iff :
    (payloadSize cs).bind twoNumerals = some (first, second) ↔ Quotes first second cs := by
  rw [(reads_payloadSize (B := fun _ => True)).bind_eq_some_iff fun _ => trivial, Quotes]
  simp only [twoNumerals_eq_some_iff]

/-- A size is the number that digits write, if it fits into 64 bits. -/
theorem sizeOf?_eq_some_iff : sizeOf? cs = some n ↔ Writes cs n ∧ n < 2 ^ 64 := by
  rw [sizeOf?, Option.filter_eq_some_iff, natOfDigits?_eq_some_iff, decide_eq_true_iff]
  rfl

/-- The sizes of a message are those that it tells. -/
theorem payloadSizes_eq_some_iff :
    payloadSizes message = some (size, limit) ↔ TellsSizes message size limit := by
  have finds (place : List Char) : (∃ first second, Quotes first second place) ↔
      ∃ numerals, (payloadSize place).bind twoNumerals = some numerals := by
    simp only [Prod.exists, bind_payloadSize_eq_some_iff]
  rw [payloadSizes, findIn_eq_findSome?]
  constructor
  · intro h
    obtain ⟨⟨first, second⟩, found, h⟩ := Option.bind_eq_some_iff.mp h
    obtain ⟨place, isFirst, found⟩ := (findSome?_eq_some_iff_firstOf finds).mp found
    obtain ⟨_, writes, h⟩ := Option.bind_eq_some_iff.mp h
    obtain ⟨_, writes', h⟩ := Option.bind_eq_some_iff.mp h
    cases h
    obtain ⟨writes, fits⟩ := sizeOf?_eq_some_iff.mp writes
    obtain ⟨writes', fits'⟩ := sizeOf?_eq_some_iff.mp writes'
    exact ⟨place, first, second, isFirst, bind_payloadSize_eq_some_iff.mp found, writes, writes', fits,
      fits'⟩
  · rintro ⟨place, first, second, isFirst, quotes, writes, writes', fits, fits'⟩
    have found := (findSome?_eq_some_iff_firstOf finds).mpr
      ⟨place, isFirst, bind_payloadSize_eq_some_iff.mpr quotes⟩
    rw [found]
    change (sizeOf? first).bind (fun a => (sizeOf? second).bind fun b => some (a, b)) = _
    rw [sizeOf?_eq_some_iff.mpr ⟨writes, fits⟩, sizeOf?_eq_some_iff.mpr ⟨writes', fits'⟩]
    rfl

/-! ### Classification -/

/-- **Sizes are told whole and in order.** A failure is classified by its sizes exactly when its message
says neither that there is no such destination nor that a delegation is not valid, and tells these
sizes. -/
theorem classify_responsePayloadTooLarge_iff (f : TransportFailure) (size limit : Nat) :
    f.classify = .responsePayloadTooLarge size limit ↔
      ¬ occurs unreachable f.message ∧ ¬ occurs badDelegation f.message ∧
        TellsSizes f.message size limit := by
  rw [← payloadSizes_eq_some_iff]
  constructor
  · intro h
    have classified := f.classified
    rw [h] at classified
    cases classified with
    | large reachable valid sizes => exact ⟨reachable, valid, sizes⟩
  · rintro ⟨reachable, valid, sizes⟩
    rw [classify, if_neg reachable, if_neg valid, sizes]

example : (ofMessage "Reply too large: 3500000 of at most 3145728 bytes").classify =
    .responsePayloadTooLarge 3500000 3145728 := by decide

end TransportFailure

end CertifiedCalls
