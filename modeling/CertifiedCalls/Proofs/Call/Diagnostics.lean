import CertifiedCalls.Call.Mapper
import CertifiedCalls.Proofs.Call.Asking
import CertifiedCalls.Proofs.Call.UpdateCourse
import CertifiedCalls.Proofs.Value.Elided

/-! # Arguments in diagnostics
The events of a call and the failure that it ends with show its arguments by their text. What is elided
from that text they do not show: calls whose arguments differ in nothing but the octets of long byte
strings show the same (`diagnostics_blind`). -/

namespace CertifiedCalls

variable {β : Type}

/-- A failure that is reported shows the arguments of the call by their text. -/
theorem Call.args_of_report {c : Call} {caller t u : Nat} {acts : List (Act platform)}
    {failed : FailedCall} {p : Workflow platform (Except CallFailure β)}
    (h : Course caller (p.bind c.report) t acts (.done (.error failed)) u) :
    failed.args = c.args.toText := by
  obtain ⟨outcome, _, _, _, _, _, report⟩ := Course.of_bind_done h
  have reported := Course.of_report report
  cases outcome with
  | ok result => cases reported
  | error cause =>
    obtain rfl := Except.error.inj reported
    rfl

/-- **Diagnostics never reveal long byte strings.** Values that differ in nothing but the octets of long
byte strings are shown by the same text, to which such a byte string adds nothing but its length. By
that text the events of a call's retries and of its failure, and the failure itself, show its
arguments. -/
theorem diagnostics_blind {v w : Value} (alike : v.Alike w) :
    v.toText = w.toText ∧
    (∀ (frame : Value.Frame) (octets : Bytes), v = frame.fill (.bytes octets) →
      Value.shownOctets < octets.length →
      v.toText = frame.front ++ ("<" ++ toString octets.length ++ " bytes>") ++ frame.back) ∧
    ∀ (a : Agent) (c : Call) (mapper : Mapper Value β) (p q : Workflow platform (Except FailedCall β))
      (caller t u : Nat) (acts : List (Act platform)), c.args = v →
      p = a.query c mapper ∨ p = a.update c mapper → Course caller p t acts q u →
      (∀ act ∈ acts, ∀ e, act.deed = .kept (.said e) → e.Shows w.toText) ∧
      ∀ failed, q = .done (.error failed) → failed.args = w.toText := by
  have same := alike.toText_eq
  refine ⟨same, ?_, ?_⟩
  · intro frame octets filled long
    rw [filled, frame.toText_fill, Value.toText, Value.showBytes_of_long long]
  · intro a c mapper p q caller t u acts args made course
    have shown : c.args.toText = w.toText := by rw [args, same]
    rw [← shown]
    refine ⟨?_, ?_⟩
    · rcases made with rfl | rfl
      · exact (keeps_query a c mapper).records_of_course course
      · exact (keeps_update a c mapper).records_of_course course
    · rintro failed rfl
      rcases made with rfl | rfl
      · exact Call.args_of_report course
      · exact Call.args_of_report course

/-- An update with a chunk that the platform does not take shows the chunk by its length. -/
theorem diagnostics_blind_chunk :
    let frame : Value.Frame :=
      .field [("at", .nat 3)] "chunk" (.payload "put" (.item [] .hole [.null])) []
    let v := frame.fill (.bytes (List.replicate 17 0))
    let w := frame.fill (.bytes (List.replicate 17 255))
    let a : Agent := ⟨.brisk, .messages, 1⟩
    let c : Call := ⟨⟨[4], by decide⟩, "put", v, .any, .any⟩
    let busy : TransportFailure := ⟨"busy", some 503⟩
    let cause := a.classifier.classify busy
    let r : PlatformRequest := .update c.target (wireMethodName "put") v.toItem.write
    let acts : List (Act platform) := [⟨0, 0, .kept (.asked 0 r)⟩,
      ⟨1, 0, .kept (.answered (I := platform) 0 r (.error busy))⟩,
      ⟨1, 0, .kept (.said (c.failureEvent cause))⟩]
    v.Alike w ∧ v ≠ w ∧ w.toText = "\x7bat: 3, chunk: put([<17 bytes>, null])\x7d" ∧
      Course 0 (a.update c Mapper.identity) 0 acts (.done (.error (c.failed cause))) 1 ∧
      (c.failureEvent cause).args? = some w.toText ∧
      (c.failed cause).args = w.toText := by
  intro frame v w a c busy cause r acts
  have alike : v.Alike w := .record (.cons _ (.refl _) (.cons _ (.payload _ (.array
    (.cons (.bytes (by decide) rfl) (.cons (.refl _) .nil)))) .nil))
  have differ : v ≠ w := by simp [v, w, frame, Value.Frame.fill]
  have course : Course 0 (a.update c Mapper.identity) 0 acts
      (.done (.error (c.failed cause))) 1 :=
    .clock (.answered (I := platform) 0 1 (.error busy) rfl (.emit (.here _ _)))
  obtain ⟨same, elided, shown⟩ := diagnostics_blind (β := Value) alike
  obtain ⟨told, reported⟩ := shown a c Mapper.identity _ _ 0 0 1 acts rfl (.inr rfl) course
  have text := elided frame (List.replicate 17 0) rfl (by decide)
  refine ⟨alike, differ, ?_, course, ?_, reported _ rfl⟩
  · rw [← same, text]
    decide
  · exact (told _ (.tail _ (.tail _ (.head _))) _ rfl).told (.inr rfl)

end CertifiedCalls
