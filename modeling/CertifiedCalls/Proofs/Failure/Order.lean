import CertifiedCalls.Failure.Classification

/-! # The order of causes
A transport failure is classified by the first of the known phrases that its message has, and only when
it has none of them by its status (`Classified`). What is said of all causes that a failure can be
classified as follows from these seven. -/

namespace CertifiedCalls.TransportFailure

open Text

variable {f : TransportFailure} {cause : CallFailure}

/-- A failure is **unexplained** when its message has none of the known phrases. -/
structure Unexplained (f : TransportFailure) : Prop where
  /-- The destination is not said to be unknown. -/
  reachable : ¬ occurs unreachable f.message
  /-- No delegation is said to be invalid. -/
  valid : ¬ occurs badDelegation f.message
  /-- No sizes are told. -/
  small : payloadSizes f.message = none
  /-- No replica is said to be behind. -/
  current : ¬ occurs lagging f.message

/-- What a failure is **classified** as: the cause of the first phrase that its message has, and else the
cause of its status. -/
inductive Classified (f : TransportFailure) : CallFailure → Prop
  /-- The destination is unknown. -/
  | unknown (unknown : occurs unreachable f.message) :
    Classified f (.destinationUnreachable f.message)
  /-- A delegation is invalid. -/
  | invalid (reachable : ¬ occurs unreachable f.message) (invalid : occurs badDelegation f.message) :
    Classified f (.authorizationFailed .invalidDelegation f.message)
  /-- A payload is too large. -/
  | large {size limit : Nat} (reachable : ¬ occurs unreachable f.message)
    (valid : ¬ occurs badDelegation f.message) (sizes : payloadSizes f.message = some (size, limit)) :
    Classified f (.responsePayloadTooLarge size limit)
  /-- A replica is behind. -/
  | behind (reachable : ¬ occurs unreachable f.message) (valid : ¬ occurs badDelegation f.message)
    (small : payloadSizes f.message = none) (behind : occurs lagging f.message) :
    Classified f (.replicaLagging f.message)
  /-- The status says that the caller is not authorized. -/
  | refused {code : Nat} (unexplained : f.Unexplained) (status : f.statusOf = some code)
    (unauthorized : isAuthStatus code) : Classified f (.authorizationFailed (.status code) f.message)
  /-- The status says something else. -/
  | passing {code : Nat} (unexplained : f.Unexplained) (status : f.statusOf = some code)
    (authorized : ¬ isAuthStatus code) : Classified f (.transient code f.message)
  /-- There is no status. -/
  | unstated (unexplained : f.Unexplained) (status : f.statusOf = none) :
    Classified f (.transientOf f.message)

/-- An unexplained failure is classified by its status. -/
theorem Unexplained.classified (h : f.Unexplained) :
    Classified f (causeOfStatus f.message f.statusOf) := by
  cases status : f.statusOf with
  | none => exact .unstated h status
  | some code =>
    rw [causeOfStatus]
    split
    · rename_i unauthorized
      exact .refused h status unauthorized
    · rename_i authorized
      exact .passing h status authorized

/-- **Every failure is classified in this order.** -/
theorem classified (f : TransportFailure) : Classified f f.classify := by
  rw [classify]
  split
  · rename_i unknown
    exact .unknown unknown
  · rename_i reachable
    split
    · rename_i invalid
      exact .invalid reachable invalid
    · rename_i valid
      split
      · rename_i sizes
        exact .large reachable valid sizes
      · rename_i small
        split
        · rename_i behind
          exact .behind reachable valid small behind
        · rename_i current
          exact Unexplained.classified ⟨reachable, valid, small, current⟩

end CertifiedCalls.TransportFailure
