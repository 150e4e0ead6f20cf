import CertifiedCalls.Failure.Classification
import CertifiedCalls.Proofs.Text.LetterCase
import Mathlib

/-! # Classification in any letter case
The phrases that failures are classified by, and the numbers that follow them, are found in any letter
case. So a message that is changed in the case of some of its ASCII letters is classified as before, but
for the message itself (`classify_recase`), and the call is tried again or not as before. -/

namespace CertifiedCalls

namespace Text

/-- The other case of an ASCII letter; other characters have none. -/
def otherCase (c : Char) : Char := if c.isUpper then c.toLower else c.toUpper

/-- A text with the letters at some places in their **other case**. -/
def recase (places : Finset Nat) (s : String) : String :=
  String.ofList (s.toList.mapIdx fun i c => if i ∈ places then otherCase c else c)

/-- A character is alike to its other case. -/
theorem caseAlike_otherCase (c : Char) : CaseAlike c (otherCase c) := by
  rw [CaseAlike, otherCase]
  split
  · exact (Char.toLower_toLower_eq_toLower c).symm
  · exact (Char.toLower_toUpper_eq_toLower c).symm

/-- A text is alike to itself with some letters in their other case. -/
theorem alike_recase (places : Finset Nat) (s : String) :
    Alike s.toList (recase places s).toList := by
  rw [recase, String.toList_ofList, Alike, List.forall₂_iff_get]
  refine ⟨List.length_mapIdx.symm, fun i h h' => ?_⟩
  simp only [List.get_eq_getElem, List.getElem_mapIdx]
  split
  · exact caseAlike_otherCase _
  · exact rfl

end Text

open Text

/-- A cause with another **message** of the transport in it. -/
def CallFailure.reworded (message : String) : CallFailure → CallFailure
  | .destinationUnreachable _ => .destinationUnreachable message
  | .authorizationFailed reason _ => .authorizationFailed reason message
  | .replicaLagging _ => .replicaLagging message
  | .transient code _ => .transient code message
  | cause => cause

/-- A cause is of the same kind with another message. -/
@[simp] theorem CallFailure.kind_reworded (message : String) (cause : CallFailure) :
    (cause.reworded message).kind = cause.kind := by
  cases cause <;> rfl

namespace TransportFailure

variable {s t : String}

/-! ### Phrases -/

theorem blind_unreachable : Blind Alike unreachable := by simp [unreachable]

theorem blind_badDelegation : Blind Alike badDelegation := by
  have has : Blind Alike (maybe (inTurn [word "has", blanksOf])) := by simp
  simp [badDelegation, has]

theorem blind_payloadSize : Blind Alike payloadSize := by
  have tooLarge : Blind Alike (inTurn [word "too", blanksOf, word "large"]) := by simp
  simp [payloadSize, tooLarge]

theorem blind_lagging : Blind Alike lagging := by
  have is : Blind Alike (maybe (inTurn [word "is", blanksOf])) := by simp
  simp [lagging, is]

theorem blind_statusLine : Blind Alike statusLine := by
  have http : Blind Alike (inTurn [word "http", blanksOf, word "status", blanksOf, word "code"]) := by
    simp
  have colon : Blind Alike (mark ':') := blind_mark (by decide)
  simp [statusLine, http, colon]

/-! ### Findings -/

/-- A phrase occurs in a text when it occurs in one that is alike. -/
theorem occurs_eq {p : Phrase} (h : Blind Alike p) (same : Alike s.toList t.toList) :
    occurs p s = occurs p t := by
  have found := h.findIn _ _ same
  rw [occurs, occurs]
  generalize findIn p s.toList = a, findIn p t.toList = b at found
  cases found <;> rfl

/-- Texts that are alike tell the same sizes. -/
theorem payloadSizes_eq (same : Alike s.toList t.toList) : payloadSizes s = payloadSizes t := by
  rw [payloadSizes, payloadSizes, (blind_payloadSize.bind blind_twoNumerals).findIn.eq same]

/-- Texts that are alike state the same status. -/
theorem statedStatus_eq (same : Alike s.toList t.toList) : statedStatus s = statedStatus t := by
  rw [statedStatus, statedStatus, (blind_statusLine.bind (blind_numeral 3)).findAtLine.eq same]

/-- A status stands for the same cause whatever the message. -/
theorem causeOfStatus_reworded (s t : String) (status : Option Nat) :
    causeOfStatus t status = (causeOfStatus s status).reworded t := by
  cases status with
  | none => rfl
  | some code =>
    rw [causeOfStatus, causeOfStatus]
    split <;> rfl

/-- Failures whose messages are alike are classified alike. -/
theorem classify_of_alike {f g : TransportFailure} (same : Alike f.message.toList g.message.toList)
    (status : f.status = g.status) : g.classify = f.classify.reworded g.message := by
  have statusOf_eq : f.statusOf = g.statusOf := by
    rw [statusOf, statusOf, status, statedStatus_eq same]
  -- Both failures pass the same tests, so they are classified in the same branch.
  rw [classify, classify, ← occurs_eq blind_unreachable same, ← occurs_eq blind_badDelegation same,
    ← payloadSizes_eq same, ← occurs_eq blind_lagging same, ← statusOf_eq]
  split
  · rfl
  · split
    · rfl
    · split
      · rfl
      · split
        · rfl
        · exact causeOfStatus_reworded _ _ _

/-- **Classification does not depend on letter case.** -/
theorem classify_recase (f : TransportFailure) (places : Finset Nat) :
    let g : TransportFailure := ⟨recase places f.message, f.status⟩
    g.classify = f.classify.reworded g.message ∧ g.classify.kind = f.classify.kind ∧
      g.classify.isRetryable = f.classify.isRetryable := by
  intro g
  have same : g.classify = f.classify.reworded g.message :=
    classify_of_alike (alike_recase places f.message) rfl
  have kind : g.classify.kind = f.classify.kind := by rw [same, CallFailure.kind_reworded]
  exact ⟨same, kind, by rw [CallFailure.isRetryable, CallFailure.isRetryable, kind]⟩

end TransportFailure

end CertifiedCalls
