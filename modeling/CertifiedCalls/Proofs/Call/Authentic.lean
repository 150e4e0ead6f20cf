import CertifiedCalls.Call.Mapper
import CertifiedCalls.Proofs.Call.KeyFetching
import CertifiedCalls.Proofs.Call.UpdateCourse
import CertifiedCalls.Proofs.MessagePack.RoundTrip
import CertifiedCalls.Proofs.Workflow.SideBySide

/-! # Authentic updates
Whatever the transport does, an update gives only results and rejections that are **vouched for**: by
a certificate that came with the immediate answer or was read later for the request that this answer
named, that the verifier opened with the agent's root key, and that says so of this request
(`update_authentic`). The calls of an agent may run side by side, and share the root key. -/

namespace CertifiedCalls

variable {σ β : Type}

/-- How certificates are opened. -/
abbrev Verifier := Bytes → Bytes → CanisterId → Except TransportFailure HashTree

/-- The platform on which a **verifier** opens certificates, at once, and a transport does everything
else. -/
def verifiedBy (verify : Verifier) (transport : Environment platform σ) : Environment platform σ
  | state, _, .openCertificate certificate key target => ⟨state, 0, verify certificate key target⟩
  | state, now, r => transport state now r

/-- Updates of one agent that start side by side, each after a delay of its own. -/
def Agent.updates (a : Agent) (calls : List (Nat × Call × Mapper Value β)) :
    List (Workflow platform (Except FailedCall β)) :=
  calls.map fun (delay, c, mapper) => (Workflow.pause delay).bind fun _ => a.update c mapper

/-- A record says that a request of a caller was **answered**. -/
def Recorded (record : List (Entry platform)) (caller : Nat) (r : PlatformRequest)
    (answer : Except TransportFailure r.Result) : Prop :=
  ∃ entry ∈ record, entry.caller = caller ∧
    ∃ number, entry.what = .answered (I := platform) number r answer

/-- A status of a request is **vouched for** by a record: the transport answered the submission with
the request, and delivered with that answer, or later when asked for the state of this request, a
certificate that opens with the root key, configured or else fetched, and says the status. -/
def Vouched (verify : Verifier) (configured : Option Bytes) (record : List (Entry platform))
    (caller : Nat) (c : Call) (arg : Bytes) (id : RequestId) (s : RequestStatus) : Prop :=
  ∃ before after answer certificate key tree, record = before ++ after ∧
    Recorded before caller (.update c.target (wireMethodName c.method) arg) (.ok ⟨id, answer⟩) ∧
    (answer = .certified certificate ∨
      Recorded after caller (.readState c.target id) (.ok certificate)) ∧
    (configured = some key ∨
      configured = none ∧ ∃ other, Recorded record other .rootKey (.ok key)) ∧
    verify certificate key c.target = .ok tree ∧ tree.requestStatus id = .ok s

/-- The outcome of an update is **authentic**: a result is what the mapper makes of a reply that is
vouched for, and a rejection that is not the mapper's is vouched for or stands for an immediate answer
that was unexpected. -/
structure Authentic (verify : Verifier) (a : Agent) (record : List (Entry platform)) (caller : Nat)
    (c : Call) (mapper : Mapper Value β) (out : Except FailedCall β) : Prop where
  /-- A result comes from a reply that is vouched for. -/
  result : ∀ r, out = .ok r → ∃ arg id reply v, c.encode a.config.layout = .ok arg ∧
    Vouched verify a.config.rootKey record caller c arg id (.replied reply) ∧
    c.response.decode reply = .ok v ∧ mapper 0 v = .ok r
  /-- A rejection is vouched for, or the immediate answer was unexpected. -/
  rejection : (∀ mapped v details, mapper mapped v ≠ .error (.remoteRejected details)) →
    ∀ details, out = .error (c.failed (.remoteRejected details)) →
      ∃ arg id, c.encode a.config.layout = .ok arg ∧ details.requestId = some id ∧
        (Vouched verify a.config.rootKey record caller c arg id (.rejected details.rejection) ∨
          details.rejection = ⟨.canisterReject, "", none⟩ ∧ ∃ status,
            Recorded record caller (.update c.target (wireMethodName c.method) arg)
              (.ok ⟨id, .unexpected status⟩))

/-! ### From acts to the record -/

/-- An answer that was heard among the acts of a caller is recorded. -/
theorem Heard.recorded {acts : List (Act platform)} {caller : Nat} {r : PlatformRequest}
    {answer : Except TransportFailure r.Result} (h : Heard (own caller acts) r answer) :
    Recorded (kept acts) caller r answer := by
  obtain ⟨number, a, mem, deed⟩ := h
  obtain ⟨here, mine⟩ := List.mem_filter.mp mem
  refine ⟨⟨a.time, a.caller, .answered number r answer⟩, mem_kept_iff.mpr ?_,
    of_decide_eq_true mine, number, rfl⟩
  rw [← deed]
  exact here

/-- The keys that are published among acts were granted and fetched. -/
def KeysRecorded (trace : List (Act platform)) : Prop :=
  ∀ key, Did trace (.published key) →
    Did trace (.claimed .granted) ∧ ∃ other, Recorded (kept trace) other .rootKey (.ok key)

/-- What was done among the acts of one caller was done. -/
theorem Did.of_own {acts : List (Act platform)} {caller : Nat} {deed : Deed platform}
    (h : Did (own caller acts) deed) : Did acts deed := by
  obtain ⟨a, mem, e⟩ := h
  exact ⟨a, (List.mem_filter.mp mem).1, e⟩

/-- Keys that a caller fetches before it publishes them are recorded. -/
theorem keysRecorded_of_own {trace : List (Act platform)}
    (fetched : ∀ id, KeysFetched (own id trace)) : KeysRecorded trace := by
  intro key ⟨a, mem, published⟩
  -- The caller that published the key is the one that fetched it.
  have mine : a ∈ own a.caller trace := List.mem_filter.mpr ⟨mem, decide_eq_true rfl⟩
  obtain ⟨granted, answered⟩ := fetched a.caller key
  obtain ⟨b, here, e⟩ := granted.exists_of_mem mine published
  obtain ⟨b', here', number, e'⟩ := answered.exists_of_mem mine published
  have heard : Heard (own a.caller trace) .rootKey (.ok key) := ⟨number, b', here', e'⟩
  exact ⟨Did.of_own ⟨b, here, e⟩, a.caller, heard.recorded⟩

section Passages

variable {verify : Verifier} {transport : Environment platform σ} {state : σ}
  {configured : Option Bytes} {w : World platform σ} {trace : List (Act platform)} {caller : Nat}

/-- The key that a caller was told is the agent's root key, configured or else fetched. -/
theorem rootKey_of_keyTold
    (passage : Passage (verifiedBy verify transport) (.start state configured) w trace)
    (keys : KeysRecorded trace) {key : Bytes} (told : KeyTold (own caller trace) key) :
    configured = some key ∨
      configured = none ∧ ∃ other, Recorded (kept trace) other .rootKey (.ok key) := by
  -- A grant means that no key was configured.
  have unknown (granted : Did trace (.claimed .granted)) : configured = none := by
    obtain ⟨a, mem, e⟩ := granted
    exact passage.honest.of_granted mem e
  rcases told with known | ⟨granted, heard⟩
  · obtain ⟨a, mem, e⟩ := known.of_own
    -- A key that a claim told was configured, or one of the calls published it after a fetch.
    rcases passage.honest.of_known mem e with same | published
    · exact .inl same
    · obtain ⟨granted, recorded⟩ := keys key published
      exact .inr ⟨unknown granted, recorded⟩
  · exact .inr ⟨unknown granted.of_own, caller, heard.recorded⟩

/-- A status that the acts of a caller back is vouched for by the record. -/
theorem Backed.vouched
    (passage : Passage (verifiedBy verify transport) (.start state configured) w trace)
    (keys : KeysRecorded trace) {c : Call} {arg : Bytes} {id : RequestId} {s : RequestStatus}
    (backed : Backed (own caller trace) c arg id s) :
    Vouched verify configured w.record caller c arg id s := by
  obtain ⟨as, bs, answer, certificate, split, heard, delivered, key, tree, told, opened, status⟩ :=
    backed
  -- The caller's acts are split where the submission was answered, so all acts and the record are.
  obtain ⟨front, rest, rfl, rfl, rfl⟩ := List.filter_eq_append_iff.mp split
  have record : w.record = kept front ++ kept rest := by
    rw [passage.record, kept_append]
    rfl
  refine ⟨kept front, kept rest, answer, certificate, key, tree, record, Heard.recorded heard,
    delivered.imp_right Heard.recorded, ?_, ?_, status⟩
  · have told_all : KeyTold (own caller (front ++ rest)) key := by
      rw [own_append]
      exact KeyTold.right told
    rw [record, ← kept_append]
    exact rootKey_of_keyTold passage keys told_all
  -- The tree is what the verifier made of the certificate, at whatever state and time.
  · obtain ⟨entry, mem, _, number, what⟩ := Heard.recorded opened
    have served := passage.served entry (by rw [kept_append]; exact List.mem_append_right _ mem)
    rw [what] at served
    obtain ⟨_, _, same⟩ := served
    exact same.symm

/-- What an update reports is authentic. -/
theorem authentic_of_course
    (passage : Passage (verifiedBy verify transport) (.start state configured) w trace)
    (keys : KeysRecorded trace) {a : Agent} (same : a.config.rootKey = configured) {c : Call}
    {mapper : Mapper Value β} {out : Except FailedCall β} {t u : Nat}
    (course : Course caller (a.update c mapper) t (own caller trace) (.done out) u) :
    Authentic verify a w.record caller c mapper out := by
  subst same
  obtain ⟨outcome, rfl, source⟩ := Course.of_update course
  constructor
  · intro r e
    cases source with
    | failure _ | unexpected _ _ | status _ _ _ => exact nomatch e
    | @reply arg id reply v encoded backed decoded =>
      have mapped : mapper 0 v = .ok r := by
        cases m : mapper 0 v with
        | ok r' =>
          rw [m] at e
          exact congrArg Except.ok (Except.ok.inj e)
        | error cause =>
          rw [m] at e
          exact nomatch e
      exact ⟨arg, id, reply, v, encoded, backed.vouched passage keys, decoded, mapped⟩
  · intro other details e
    -- Reporting changes no cause, so the rejection is that of the outcome.
    have cause_eq {cause : CallFailure} (e : (Except.error (c.failed cause) : Except FailedCall β)
        = .error (c.failed (.remoteRejected details))) : cause = .remoteRejected details := by
      have same := congrArg FailedCall.cause (Except.error.inj e)
      exact same
    cases source with
    | failure no_rejection =>
      obtain rfl := cause_eq e
      exact (no_rejection trivial).elim
    | @unexpected arg id status encoded heard =>
      obtain rfl := CallFailure.remoteRejected.inj (cause_eq e)
      refine ⟨arg, id, encoded, rfl, .inr ⟨rfl, status, ?_⟩⟩
      have recorded : Recorded (kept trace) caller _ _ := heard.recorded
      rw [passage.record]
      exact recorded
    | @status arg id s cause encoded backed resolved =>
      obtain rfl := cause_eq e
      obtain ⟨rfl, same⟩ := Call.eq_rejected_of_resolve resolved
      have named : details.requestId = some id := by rw [same]
      exact ⟨arg, id, encoded, named, .inl (backed.vouched passage keys)⟩
    | @reply arg id reply v encoded backed decoded =>
      have mapped : mapper 0 v = .error (.remoteRejected details) := by
        cases m : mapper 0 v with
        | ok r' =>
          rw [m] at e
          exact nomatch e
        | error cause =>
          rw [m] at e
          rw [cause_eq e]
      exact absurd mapped (other 0 v details)

end Passages

/-! ### Runs -/

/-- All updates fetch the root key that they make known. -/
theorem keysFetched_updates {a : Agent} {calls : List (Nat × Call × Mapper Value β)}
    {q : Workflow platform (Except FailedCall β)} (mem : q ∈ a.updates calls) (id : Nat) :
    q.Always id KeysFetched := by
  obtain ⟨⟨delay, c, mapper⟩, _, rfl⟩ := List.mem_map.mp mem
  exact .bind .append (.of_quiet trivial) fun _ => keysFetched_update a c mapper

/-- **Updates are authentic**, whatever transport and verifier they run with, when they run alone and
when they run side by side with others. -/
theorem update_authentic (a : Agent) (verify : Verifier) (transport : Environment platform σ)
    (state : σ) :
    (∀ (c : Call) (mapper : Mapper Value β) (out : Except FailedCall β),
      let ran := (a.update c mapper).run (verifiedBy verify transport) (.start state a.config.rootKey)
      ran.2 = some out → Authentic verify a ran.1.record 0 c mapper out) ∧
    ∀ (calls : List (Nat × Call × Mapper Value β)) (limit steps : Nat)
      (isFinal : Except FailedCall β → Bool),
      let pool := (Pool.start (.start state a.config.rootKey) limit (a.updates calls)).run
        (verifiedBy verify transport) isFinal steps
      ∀ (e : Ended (Except FailedCall β)) (delay : Nat) (c : Call) (mapper : Mapper Value β)
        (out : Except FailedCall β), e ∈ pool.ended → calls[e.id]? = some (delay, c, mapper) →
        e.result = some out → Authentic verify a pool.world.record e.id c mapper out := by
  constructor
  -- A call that runs alone does all that is done.
  · intro c mapper out ran result
    obtain ⟨acts, passage, course⟩ := Workflow.run_course (verifiedBy verify transport)
      (.start state a.config.rootKey) (a.update c mapper)
    have mine : own 0 acts = acts := own_of_all course.caller_eq
    have keys : KeysRecorded acts := by
      refine keysRecorded_of_own fun id => ?_
      by_cases zero : id = 0
      · rw [zero, mine]
        exact keysFetched_update a c mapper _ _ _ _ course
      · rw [own_of_ne zero course.caller_eq]
        exact .nil
    rw [show ((a.update c mapper).run _ _).2 = some out from result] at course
    rw [← mine] at course
    exact authentic_of_course passage keys rfl course
  -- A call among others does its own acts, and each of the others fetches the key that it publishes.
  · intro calls limit steps isFinal pool e delay c mapper out ended found result
    obtain ⟨trace, explained⟩ := Pool.explained_run (verifiedBy verify transport) isFinal steps
      (.start state a.config.rootKey) limit (a.updates calls)
    have keys : KeysRecorded trace := by
      refine keysRecorded_of_own fun id => ?_
      by_cases idle : own id trace = []
      · rw [idle]
        exact .nil
      · obtain ⟨more, q, t, p, since, at_id, course⟩ := explained.begun id idle
        have fetched := keysFetched_updates (List.mem_of_getElem? at_id) id _ _ _ _ course
        exact fun key => ⟨(fetched key).1.left, (fetched key).2.left⟩
    obtain ⟨p, since, at_id, course⟩ := explained.ended e ended
    rw [Agent.updates, List.getElem?_map, found] at at_id
    obtain rfl := Option.some.inj at_id
    rw [result] at course
    obtain ⟨_, as, bs, v, split, pause, course⟩ := course.of_bind_done
    obtain ⟨rfl, _⟩ := Course.of_pause pause
    rw [List.nil_append] at split
    rw [← split] at course
    exact authentic_of_course explained.passage keys rfl course

/-- An update whose certificate comes with the immediate answer and says that the reply is null. -/
theorem update_authentic_null :
    let id : RequestId := ⟨List.replicate 32 7, rfl⟩
    let tree : HashTree := .labeled statusRoot (.labeled id.bytes
      (.fork (.labeled (Bytes.ofText "reply") (.leaf [192]))
        (.labeled (Bytes.ofText "status") (.leaf (Bytes.ofText "replied")))))
    let verify : Verifier := fun certificate key _ =>
      if certificate = [1] ∧ key = [9] then .ok tree else .error (.ofMessage "bad certificate")
    let transport : Environment platform Unit := fun _ _ r =>
      match r with
      | .query _ _ _ => ⟨(), 0, .error (.ofMessage "no")⟩
      | .update _ _ _ => ⟨(), 5, .ok ⟨id, .certified [1]⟩⟩
      | .readState _ _ => ⟨(), 3, .ok [1]⟩
      | .rootKey => ⟨(), 2, .ok [9]⟩
      | .openCertificate _ _ _ => ⟨(), 0, .error (.ofMessage "no")⟩
    let a : Agent := ⟨.brisk, .messages, 10⟩
    let c : Call := ⟨⟨[4], by decide⟩, "stop", .null, .null, .null⟩
    let ran := (a.update c .identity).run (verifiedBy verify transport) (.start () none)
    ran.2 = some (.ok .null) ∧
      ∃ arg id reply v, c.encode a.config.layout = .ok arg ∧
        Vouched verify none ran.1.record 0 c arg id (.replied reply) ∧
        c.response.decode reply = .ok v ∧ v = .null := by
  intro id tree verify transport a c ran
  have read : MessagePack.Item.read [192] = .ok (.nil, []) :=
    @MessagePack.Item.read_write .nil trivial (by decide) []
  have decoded : Schema.null.decode [192] = .ok .null := by
    rw [Schema.decode, read]
    rfl
  have submitted : ran.2 = ((((ExceptT.mk (c.decode [192]) >>= fun v => .mk (.done (.ok v)) :
      UpdateStep Value).run >>= c.report).run (verifiedBy verify transport)
        (((a.submit c [192]).run.run (verifiedBy verify transport) (.start () none)).1)).2) := rfl
  have result : ran.2 = some (.ok .null) := by
    rw [submitted, Call.decode, show c.response.decode [192] = _ from decoded]
    rfl
  have authentic := (update_authentic a verify transport ()).1 c .identity (.ok .null) result
  obtain ⟨arg, id, reply, v, encoded, vouched, decoded, mapped⟩ := authentic.result .null rfl
  exact ⟨result, arg, id, reply, v, encoded, vouched, decoded, Except.ok.inj mapped⟩
end CertifiedCalls
