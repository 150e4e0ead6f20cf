import CertifiedCalls.Call.Query
import CertifiedCalls.Proofs.Call.UpdateLog
import CertifiedCalls.Proofs.Outcomes

/-! # Courses of queries
A query is tried again only where nothing was replied or the mapper asks for it. What a query gives is
what the mapper makes of a reply to it, and where the mapper's failures are final no other reply was
heard (`Course.of_query`). -/

namespace CertifiedCalls

variable {β : Type} {classify : TransportFailure → CallFailure} {caller t u : Nat}
  {acts : List (Act platform)}

/-- A reply to a query was **heard** among acts. -/
def HeardReply (acts : List (Act platform)) (reply : Bytes) : Prop :=
  ∃ target method arg, Heard acts (.query target method arg) (.ok (.replied reply))

/-- A reply that was heard was heard in front or after. -/
theorem heardReply_append {as bs : List (Act platform)} {reply : Bytes}
    (h : HeardReply (as ++ bs) reply) : HeardReply as reply ∨ HeardReply bs reply := by
  obtain ⟨target, method, arg, number, did⟩ := h
  rcases did_append.mp did with front | after
  · exact .inl ⟨target, method, arg, number, front⟩
  · exact .inr ⟨target, method, arg, number, after⟩

/-- No reply is heard where events are recorded. -/
theorem not_heardReply_of_announcing {reply : Bytes} (announcing : Announcing (kept acts)) :
    ¬ HeardReply acts reply := by
  rintro ⟨target, method, arg, number, ⟨time, id, deed⟩, mem, rfl⟩
  obtain ⟨e, said⟩ := announcing ⟨time, id, _⟩ (mem_kept_iff.mpr mem)
  exact nomatch said

/-- What an attempt at a query comes to. -/
inductive AttemptFrom (c : Call) (arg : Bytes) (mapper : Mapper Value β) (mapped : Nat)
    (acts : List (Act platform)) : Except CallFailure β → Prop
  /-- A failure without a reply. -/
  | unanswered {cause : CallFailure} (none : ∀ reply, ¬ HeardReply acts reply) :
    AttemptFrom c arg mapper mapped acts (.error cause)
  /-- The failure of a reply that cannot be decoded, which is final. -/
  | undecoded {cause : CallFailure} (final : cause.isRetryable = false) :
    AttemptFrom c arg mapper mapped acts (.error cause)
  /-- A reply that is decoded and mapped, and is the only one. -/
  | replied {reply : Bytes} {v : Value}
    (heard : Heard acts (.query c.target (wireMethodName c.method) arg) (.ok (.replied reply)))
    (only : ∀ other, HeardReply acts other → other = reply)
    (decoded : c.response.decode reply = .ok v) :
    AttemptFrom c arg mapper mapped acts (mapper mapped v)

/-- A result of a query **comes from** a reply to it that is decoded and mapped. Where the mapper's
failures are final, no other reply was heard. -/
def ResultFrom (c : Call) (arg : Bytes) (mapper : Mapper Value β) (acts : List (Act platform))
    (r : β) : Prop :=
  ∃ reply v mapped, Heard acts (.query c.target (wireMethodName c.method) arg) (.ok (.replied reply)) ∧
    c.response.decode reply = .ok v ∧ mapper mapped v = .ok r ∧
    ((∀ mapped v cause, mapper mapped v = .error cause → cause.isRetryable = false) →
      ∀ other, HeardReply acts other → other = reply)

/-- What a result comes from, it comes from when events are recorded later. -/
theorem ResultFrom.left {c : Call} {arg : Bytes} {mapper : Mapper Value β}
    {as bs : List (Act platform)} {r : β} (h : ResultFrom c arg mapper as r)
    (announcing : Announcing (kept bs)) : ResultFrom c arg mapper (as ++ bs) r := by
  obtain ⟨reply, v, mapped, heard, decoded, made, only⟩ := h
  refine ⟨reply, v, mapped, heard.left, decoded, made, fun final other h => ?_⟩
  rcases heardReply_append h with front | after
  · exact only final other front
  · exact absurd after (not_heardReply_of_announcing announcing)

namespace AttemptFrom

variable {c : Call} {arg : Bytes} {mapper : Mapper Value β} {mapped : Nat} {r : β}

/-- The result of an attempt comes from the reply to it. -/
theorem result (h : AttemptFrom c arg mapper mapped acts (.ok r)) :
    ResultFrom c arg mapper acts r := by
  generalize made : Except.ok (ε := CallFailure) r = out at h
  cases h with
  | unanswered _ | undecoded _ => exact nomatch made
  | @replied reply v heard only decoded =>
    exact ⟨reply, v, mapped, heard, decoded, made.symm, fun _ => only⟩

/-- A failure that may be tried again came without a reply, or the mapper's failures are not final. -/
theorem silent {cause : CallFailure} (h : AttemptFrom c arg mapper mapped acts (.error cause))
    (again : cause.isRetryable = true)
    (final : ∀ mapped v cause, mapper mapped v = .error cause → cause.isRetryable = false)
    (reply : Bytes) : ¬ HeardReply acts reply := by
  generalize failed : Except.error (α := β) cause = out at h
  cases h with
  | unanswered none => exact none reply
  | undecoded last =>
    obtain rfl := Except.error.inj failed
    exact nomatch last.symm.trans again
  | @replied _ v _ _ _ => exact nomatch (final mapped v cause failed.symm).symm.trans again

end AttemptFrom

namespace Course

/-- A reply that is heard when a query is made is the answer to it. -/
theorem answer_eq_of_heardReply {target : CanisterId} {method : String} {arg reply : Bytes}
    {answer : Except TransportFailure QueryAnswer}
    (h : Course caller (PlatformRequest.query target method arg).ask t acts (.done answer) u)
    (heard : HeardReply acts reply) : answer = .ok (.replied reply) := by
  obtain ⟨number, delay, rfl, rfl⟩ := of_ask h
  obtain ⟨_, _, _, n, a, mem, deed⟩ := heard
  rw [List.mem_cons, List.mem_singleton] at mem
  rcases mem with rfl | rfl
  · exact nomatch deed
  · obtain ⟨_, e, same⟩ := Happening.answered.inj (Deed.kept.inj deed)
    obtain ⟨rfl, rfl, rfl⟩ := PlatformRequest.query.inj e
    exact eq_of_heq same

/-- What an attempt at a query comes to. -/
theorem of_queryOnce {c : Call} {arg : Bytes} {mapper : Mapper Value β} {mapped : Nat}
    {out : Nat × Except CallFailure β}
    (h : Course caller (c.queryOnce classify arg mapper mapped) t acts (.done out) u) :
    AttemptFrom c arg mapper mapped acts out.2 := by
  obtain ⟨answer, as, bs, v, rfl, asked, h₁⟩ := of_bind_done h
  -- Nothing but the answer is heard.
  have only (announcing : Announcing (kept bs)) {reply : Bytes} (heard : HeardReply (as ++ bs) reply) :
      answer = .ok (.replied reply) := by
    rcases heardReply_append heard with front | after
    · exact answer_eq_of_heardReply asked front
    · exact absurd after (not_heardReply_of_announcing announcing)
  match answer with
  | .error failure =>
    obtain ⟨rfl, e, _⟩ := h₁.of_done
    obtain rfl := Workflow.done.inj e
    exact .unanswered fun reply heard => nomatch only (List.forall_mem_nil _) heard
  | .ok (.rejected rejection) =>
    obtain ⟨rfl, e, _⟩ := h₁.of_done
    obtain rfl := Workflow.done.inj e
    exact .unanswered fun reply heard => nomatch only (List.forall_mem_nil _) heard
  | .ok (.replied reply) =>
    have heard : Heard as (.query c.target (wireMethodName c.method) arg) (.ok (.replied reply)) :=
      heard_of_ask asked
    obtain ⟨outcome, cs, ds, _, rfl, decoding, h₂⟩ := of_bind_done h₁
    have decoded := of_decode decoding
    cases found : c.response.decode reply with
    | ok v =>
      rw [found] at decoded
      obtain rfl : outcome = .ok v := decoded
      obtain ⟨rfl, e, _⟩ := h₂.of_done
      obtain rfl := Workflow.done.inj e
      refine .replied heard.left (fun other h => ?_) found
      have announcing := announcing_of_decode decoding
      rw [List.append_nil] at only h
      exact (QueryAnswer.replied.inj (Except.ok.inj (only announcing h))).symm
    | error fault =>
      rw [found] at decoded
      obtain rfl : outcome = .error fault.failure := decoded
      obtain ⟨rfl, e, _⟩ := h₂.of_done
      obtain rfl := Workflow.done.inj e
      exact .undecoded rfl

/-- Repeated attempts at a query give the result of the first, or of later ones after a failure that
may be tried again. -/
theorem step_of_attempts {c : Call} {arg : Bytes} {mapper : Mapper Value β} {b : Backoff}
    {args : String} {left : Nat} {retry : UInt32} {mapped : Nat} {r : β}
    (h : Course caller (b.attempts args (c.queryOnce classify arg mapper) left retry mapped) t acts
      (.done (.ok r)) u) :
    ResultFrom c arg mapper acts r ∨
      ∃ less cause mapped' as bs cs s, left = less + 1 ∧ acts = as ++ (bs ++ cs) ∧
        AttemptFrom c arg mapper mapped as (.error cause) ∧ cause.isRetryable = true ∧
        Announcing (kept bs) ∧
        Course caller (b.attempts args (c.queryOnce classify arg mapper) less (retry + 1) mapped') s cs
          (.done (.ok r)) u := by
  rw [Backoff.attempts] at h
  obtain ⟨⟨mapped', outcome⟩, as, bs, _, rfl, once, h₁⟩ := of_bind_done h
  have attempt := of_queryOnce once
  match outcome with
  | .ok r' =>
    obtain ⟨rfl, e, _⟩ := h₁.of_done
    obtain rfl := Except.ok.inj (Workflow.done.inj e)
    rw [List.append_nil]
    exact .inl attempt.result
  | .error cause =>
    simp only at h₁
    split at h₁
    · rename_i again
      cases left with
      | zero =>
        obtain ⟨_, _, _, _, _, _, h₂⟩ := of_bind_done h₁
        exact nomatch h₂
      | succ less =>
        obtain ⟨_, cs, _, _, rfl, said, h₂⟩ := of_bind_done h₁
        obtain ⟨rfl, _⟩ := of_say said
        obtain ⟨_, _, ds, s, rfl, pause, h₃⟩ := of_bind_done h₂
        obtain ⟨rfl, _⟩ := of_pause pause
        exact .inr ⟨less, cause, mapped', as, _, ds, s, rfl, rfl, attempt, again,
          List.forall_mem_singleton.mpr ⟨_, rfl⟩, h₃⟩
    · exact nomatch h₁

/-- What the result of repeated attempts at a query comes from. -/
theorem of_attempts {c : Call} {arg : Bytes} {mapper : Mapper Value β} {b : Backoff} {args : String}
    {left : Nat} {retry : UInt32} {mapped : Nat} {r : β}
    (h : Course caller (b.attempts args (c.queryOnce classify arg mapper) left retry mapped) t acts
      (.done (.ok r)) u) : ResultFrom c arg mapper acts r := by
  -- On the retries that are left.
  induction left generalizing retry mapped t acts with
  | zero =>
    rcases step_of_attempts h with result | ⟨_, _, _, _, _, _, _, none, _⟩
    · exact result
    · exact nomatch none
  | succ left ih =>
    rcases step_of_attempts h with result |
      ⟨less, cause, mapped', as, bs, cs, s, e, rfl, attempt, again, announcing, rest⟩
    · exact result
    · obtain rfl := Nat.succ.inj e
      obtain ⟨reply, v, mapped', heard, decoded, made, only⟩ := ih rest
      refine ⟨reply, v, mapped', heard.right.right, decoded, made, fun final other h' => ?_⟩
      rcases heardReply_append h' with front | after
      · exact absurd front (attempt.silent again final other)
      · rcases heardReply_append after with said | after
        · exact absurd said (not_heardReply_of_announcing announcing)
        · exact only final other after

/-- **What a query gives** comes from a reply to it. -/
theorem of_query {a : Agent} {c : Call} {mapper : Mapper Value β} {r : β}
    (h : Course caller (a.query c mapper) t acts (.done (.ok r)) u) :
    ∃ arg, c.encode a.config.layout = .ok arg ∧ ResultFrom c arg mapper acts r := by
  obtain ⟨outcome, as, bs, _, rfl, h₁, report⟩ := of_bind_done h
  have reported := of_report report
  obtain rfl := eq_ok_of_mapError_eq_ok reported.symm
  rw [Agent.queryOutcome] at h₁
  cases encoded : c.encode a.config.layout with
  | error cause =>
    rw [encoded] at h₁
    exact nomatch h₁
  | ok arg =>
    rw [encoded] at h₁
    exact ⟨arg, rfl, (of_attempts h₁).left (announcing_of_report report)⟩

end Course

end CertifiedCalls
