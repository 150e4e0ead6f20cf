import CertifiedCalls.Failure.Classification

/-! # Classifiers
An agent works with any **classifier** of transport failures: one for a transport that tells them apart
by codes takes the place of the one that goes by their messages. That a call was rejected, or was not
certified in time, is not for a classifier to say, since no transport failure tells it. -/

namespace CertifiedCalls

/-- A failure that says that the call was **rejected**. -/
def CallFailure.IsRejection : CallFailure → Prop
  | .remoteRejected _ => True
  | _ => False

/-- A failure that says that the request was not certified **in time**. -/
def CallFailure.IsTimeout : CallFailure → Prop
  | .timedOut _ _ => True
  | _ => False

/-- A **classifier** of transport failures. -/
structure Classifier where
  /-- What a failure is classified as. -/
  classify : TransportFailure → CallFailure
  /-- No failure is classified as a rejection. -/
  not_isRejection : ∀ f, ¬ (classify f).IsRejection
  /-- None is classified as a request that was not certified in time. -/
  not_isTimeout : ∀ f, ¬ (classify f).IsTimeout

namespace TransportFailure

/-- What is said of an unknown destination, a missing authorization, the sizes of a response, a replica
that is behind and whatever may pass is said of every cause that a message stands for. -/
theorem classify_induction {P : CallFailure → Prop} (unreachable : ∀ m, P (.destinationUnreachable m))
    (unauthorized : ∀ reason m, P (.authorizationFailed reason m))
    (tooLarge : ∀ size limit, P (.responsePayloadTooLarge size limit))
    (lagging : ∀ m, P (.replicaLagging m)) (transient : ∀ code m, P (.transient code m))
    (f : TransportFailure) : P f.classify := by
  fun_cases classify f with
  | case1 => exact unreachable _
  | case2 => exact unauthorized _ _
  | case3 => exact tooLarge _ _
  | case4 => exact lagging _
  | case5 =>
    fun_cases causeOfStatus f.message f.statusOf with
    | case1 => exact unauthorized _ _
    | case2 => exact transient _ _
    | case3 => exact transient _ _

end TransportFailure

/-- The classifier that goes by messages. -/
def Classifier.messages : Classifier where
  classify := TransportFailure.classify
  not_isRejection := TransportFailure.classify_induction (P := fun cause => ¬ cause.IsRejection)
    (fun _ => not_false) (fun _ _ => not_false) (fun _ _ => not_false) (fun _ => not_false)
    fun _ _ => not_false
  not_isTimeout := TransportFailure.classify_induction (P := fun cause => ¬ cause.IsTimeout)
    (fun _ => not_false) (fun _ _ => not_false) (fun _ _ => not_false) (fun _ => not_false)
    fun _ _ => not_false

end CertifiedCalls
