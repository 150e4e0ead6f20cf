import CertifiedCalls.Call.Query
import CertifiedCalls.Call.Update

/-! # Arguments in events
The events of a call that show its arguments are those of its retries and of its failure. An event
**shows** arguments by a text when it shows them by no other and, if it is one of those, does show
them. Every event of a call shows its arguments by their text. -/

namespace CertifiedCalls

namespace Event

/-- The arguments that an event shows. -/
def args? (e : Event) : Option String := Fields.get? "args" e.fields

/-- An event **shows** arguments by a text when it shows them by no other and, if it records a retry or
the failure of a call, does show them. -/
structure Shows (text : String) (e : Event) : Prop where
  /-- The events of retries and of failed calls show the text. -/
  told : e.message = "[oc-01] Retrying query" ∨ e.message = "[oc-01] Canister call failed" →
    e.args? = some text
  /-- No event shows another text. -/
  only : ∀ shown, e.args? = some shown → shown = text

variable {text : String}

/-- An event that records something else need not show any arguments. -/
theorem shows_of_other {e : Event} (retry : e.message ≠ "[oc-01] Retrying query")
    (failure : e.message ≠ "[oc-01] Canister call failed") (none : e.args? = none) : e.Shows text where
  told := by
    rintro (same | same)
    · exact absurd same retry
    · exact absurd same failure
  only := by simp [none]

/-- An event that shows the text is as it should be. -/
theorem shows_of_args {e : Event} (shown : e.args? = some text) : e.Shows text where
  told _ := shown
  only := by simp [shown]

end Event

open Event (shows_of_other shows_of_args)

variable {text : String}

/-- A fault of a reply shows no arguments. -/
theorem ReplyFault.shows_event (fault : ReplyFault) : fault.event.Shows text := by
  apply shows_of_other
  · cases fault <;> simp [ReplyFault.event, ← String.toList_inj]
  · cases fault <;> simp [ReplyFault.event, ← String.toList_inj]
  · cases fault <;> rfl

/-- A retry shows the arguments. -/
theorem Backoff.shows_retryEvent (b : Backoff) (retry : UInt32) (cause : CallFailure) :
    (b.retryEvent text retry cause).Shows text := shows_of_args rfl

/-- The last failure of a query does not. -/
theorem Backoff.shows_exhaustedEvent (retry : UInt32) (cause : CallFailure) :
    (exhaustedEvent retry cause).Shows text :=
  shows_of_other (by simp [exhaustedEvent]) (by simp [exhaustedEvent]) rfl

namespace Call

/-- The failure of a call shows its arguments. -/
theorem shows_failureEvent (c : Call) (cause : CallFailure) :
    (c.failureEvent cause).Shows c.args.toText := shows_of_args rfl

/-- The other events of a call do not. -/
theorem shows_rootKeyEvent : rootKeyEvent.Shows text :=
  shows_of_other (by decide) (by decide) rfl

theorem shows_pendingEvent (c : Call) (id : RequestId) : (c.pendingEvent id).Shows text :=
  shows_of_other (by simp [pendingEvent]) (by simp [pendingEvent]) rfl

theorem shows_acceptedEvent (c : Call) (id : RequestId) : (c.acceptedEvent id).Shows text :=
  shows_of_other (by simp [acceptedEvent]) (by simp [acceptedEvent]) rfl

theorem shows_lapsedEvent (id : RequestId) : (lapsedEvent id).Shows text :=
  shows_of_other (by simp [lapsedEvent]) (by simp [lapsedEvent]) rfl

theorem shows_missedEvent (id : RequestId) (cause : CallFailure) : (missedEvent id cause).Shows text :=
  shows_of_other (by simp [missedEvent]) (by simp [missedEvent]) rfl

theorem shows_finalEvent (id : RequestId) (elapsedMs : Nat) : (finalEvent id elapsedMs).Shows text :=
  shows_of_other (by simp [finalEvent]) (by simp [finalEvent]) rfl

end Call

end CertifiedCalls
