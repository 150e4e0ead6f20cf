import CertifiedCalls.Proofs.Workflow.Remarks
import CertifiedCalls.Proofs.Workflow.SideBySide
import CertifiedCalls.Upload.Run
import Mathlib.Data.List.Perm.Subperm

/-! # Storing chunks
What an upload does over any interface that the requests to its storage are made over. The attempts
at a chunk are requests for the same chunk, and one that succeeds ends with the answer that the chunk
is stored (`Upload.stored_of_tryChunk`). The chunks of an upload succeed together only when each of
them does (`Upload.course_of_chunksOutcome`). -/

namespace CertifiedCalls

/-! ### Workflows over another interface -/

namespace Workflow

variable {I J : Interface} {α β : Type} (serve : (r : I.Request) → Workflow J (I.Answer r))

/-- One workflow after another over another interface. -/
theorem through_bind (p : Workflow I α) (f : α → Workflow I β) :
    (p.bind f).through serve = (p.through serve).bind fun a => (f a).through serve := by
  induction p with
  | done _ | unfinished => rfl
  | emit _ _ ih | sleep _ _ ih | publish _ _ ih | release _ ih => simp only [bind, through, ih]
  | clock _ ih | claim _ _ ih => simp only [bind, through, ih]
  | request _ _ _ ih => simp only [bind, through, ih, bind_assoc]

/-- Waiting for the answer to a request over another interface. -/
theorem through_ask (r : I.Request) : (ask r).through serve = serve r := bind_done (serve r)

/-- A stretch that starts with a request over another interface. -/
theorem through_run_ask_bind {ε : Type} (r : I.Request)
    (f : I.Answer r → ExceptT ε (Workflow I) β) :
    (ExceptT.lift (ask r) >>= f).run.through serve
      = (serve r).bind fun answer => (f answer).run.through serve := by
  rw [Course.run_lift_bind, through_bind, through_ask]

/-- A stretch that starts with an event over another interface. -/
theorem through_run_say_bind {ε : Type} (e : Event) (f : Unit → ExceptT ε (Workflow I) β) :
    (ExceptT.lift (say e) >>= f).run.through serve
      = (say e).bind fun _ => (f ()).run.through serve := by
  rw [Course.run_lift_bind, through_bind]
  rfl

end Workflow

/-- An act that does no more than record an event is a **remark**. -/
def Act.IsRemark {I : Interface} (a : Act I) : Prop := ∃ e, a.deed = .kept (.said e)

/-- A world passes to the one after remarks through these. -/
theorem World.exists_passage_remark {I : Interface} {σ : Type} (env : Environment I σ)
    (w : World I σ) (caller : Nat) (es : List Event) :
    ∃ acts, Passage env w (w.remark caller es) acts ∧ ∀ a ∈ acts, a.IsRemark := by
  induction es generalizing w with
  | nil => exact ⟨[], .refl env w, List.forall_mem_nil _⟩
  | cons e es ih =>
    obtain ⟨acts, passage, all⟩ := ih (w.note caller (.said e))
    rw [w.note_remark] at passage
    exact ⟨_ :: acts, (Passage.note env w caller (.said e) trivial).trans passage,
      List.forall_mem_cons.mpr ⟨⟨e, rfl⟩, all⟩⟩

namespace Upload

variable {J : Interface} {client : StorageClient J} {id t v : Nat} {acts : List (Act J)}

/-! ### One chunk -/

/-- What a fault of an attempt at a chunk leads to, with so many attempts left. -/
def afterFault (bucket : CanisterId) (args : ChunkArgs) (left attempt : Nat) (fault : ChunkFault) :
    UploadStep Unit :=
  match left with
  | 0 => throw (.chunkFailed args.index attempt fault)
  | left + 1 => tryChunk bucket args left (attempt + 1)

/-- The events of an answer to an attempt at a chunk. -/
def answerEvents (args : ChunkArgs) (attempt : Nat) : Except FailedCall ChunkReply → List Event
  | .ok .success => []
  | .ok .chunkAlreadyExists => [storedEvent args.index attempt]
  | answer => [faultEvent args attempt (faultOf answer)]

/-- Whether an answer says that the chunk is stored. -/
def storedBy : Except FailedCall ChunkReply → Bool
  | .ok reply => reply.isStored
  | .error _ => false

/-- Records events. -/
def sayAll (es : List Event) : Workflow J Unit := es.foldr (fun e rest => .emit e rest) (.done ())

/-- An **attempt at a chunk** is one request, the events of its answer, and success or what a fault
leads to. -/
theorem through_tryChunk (client : StorageClient J) (bucket : CanisterId) (args : ChunkArgs)
    (left attempt : Nat) :
    (tryChunk bucket args left attempt).run.through client =
      (client (.store bucket args)).bind fun answer =>
        (sayAll (answerEvents args attempt answer)).bind fun _ =>
          if storedBy answer then .done (.ok ())
          else (afterFault bucket args left attempt (faultOf answer)).run.through client := by
  unfold tryChunk
  refine (Workflow.through_run_ask_bind (I := storage) client _ _).trans ?_
  congr 1
  funext answer
  cases answer with
  | error failure =>
    refine (Workflow.through_run_say_bind (I := storage) client _ _).trans ?_
    cases left <;> rfl
  | ok reply =>
    cases reply with
    | success | chunkAlreadyExists => rfl
    | _ =>
      refine (Workflow.through_run_say_bind (I := storage) client _ _).trans ?_
      cases left <;> rfl

/-- An attempt that is part of a success ends with the answer that the chunk is stored, or has a fault
after which the chunk is tried again. -/
theorem step_of_tryChunk {bucket : CanisterId} {args : ChunkArgs} {left attempt : Nat}
    (h : Course id ((tryChunk bucket args left attempt).run.through client) t acts
      (.done (.ok ())) v) :
    (∃ reply as bs s, acts = as ++ bs ∧ ChunkReply.isStored reply = true ∧
        Course id (client (.store bucket args)) t as (.done (.ok reply)) s) ∨
      ∃ fault as bs s, acts = as ++ bs ∧
        Course id ((afterFault bucket args left attempt fault).run.through client) s bs
          (.done (.ok ())) v := by
  rw [through_tryChunk] at h
  obtain ⟨answer, as, bs, s, rfl, request, h⟩ := h.of_bind_done
  obtain ⟨_, cs, ds, s', rfl, _, h⟩ := h.of_bind_done
  by_cases stored : storedBy answer = true
  · cases answer with
    | error failure => exact nomatch stored
    | ok reply => exact .inl ⟨reply, as, cs ++ ds, s, rfl, stored, request⟩
  · rw [if_neg stored] at h
    exact .inr ⟨faultOf answer, as ++ cs, ds, s', (List.append_assoc _ _ _).symm, h⟩

/-- Storing a chunk that succeeds **ends with the answer** that the chunk is stored. -/
theorem stored_of_tryChunk {bucket : CanisterId} {args : ChunkArgs} {left attempt : Nat}
    (h : Course id ((tryChunk bucket args left attempt).run.through client) t acts
      (.done (.ok ())) v) :
    ∃ reply as bs cs s s', acts = as ++ bs ++ cs ∧ ChunkReply.isStored reply = true ∧
      Course id (client (.store bucket args)) s bs (.done (.ok reply)) s' := by
  -- On the attempts that are left.
  induction left generalizing attempt t acts with
  | zero =>
    rcases step_of_tryChunk h with ⟨reply, as, bs, s, rfl, stored, course⟩ | ⟨_, _, _, _, rfl, rest⟩
    · exact ⟨reply, [], as, bs, t, s, rfl, stored, course⟩
    · -- The last attempt is not followed by another.
      exact nomatch rest
  | succ left ih =>
    rcases step_of_tryChunk h with ⟨reply, as, bs, s, rfl, stored, course⟩ | ⟨_, as, _, _, rfl, rest⟩
    · exact ⟨reply, [], as, bs, t, s, rfl, stored, course⟩
    · obtain ⟨reply, bs, cs, ds, s, s', rfl, stored, course⟩ := ih rest
      exact ⟨reply, as ++ bs, cs, ds, s, s', by simp only [List.append_assoc], stored, course⟩

section Always

variable {P : List (Act J) → Prop} (nothing : P [])
  (together : ∀ as bs, P as → P bs → P (as ++ bs))
  (remark : ∀ t e, P [⟨t, id, .kept (.said e)⟩])

include nothing together remark

/-- Recording events has every property that remarks have. -/
theorem always_sayAll (es : List Event) : (sayAll es).Always id P := by
  induction es with
  | nil => exact .done nothing ()
  | cons e es ih =>
    intro t acts q u h
    cases h with
    | here => exact nothing
    | emit rest => exact together [_] _ (remark t e) (ih _ _ _ _ rest)

/-- All attempts at a chunk have every property that the requests for it and remarks have. -/
theorem always_tryChunk {bucket : CanisterId} {args : ChunkArgs}
    (request : (client (.store bucket args)).Always id P) (left attempt : Nat) :
    ((tryChunk bucket args left attempt).run.through client).Always id P := by
  have attempt_always (left attempt : Nat)
      (rest : ∀ fault, ((afterFault bucket args left attempt fault).run.through client).Always id P) :
      ((tryChunk bucket args left attempt).run.through client).Always id P := by
    rw [through_tryChunk]
    refine .bind together request fun answer => .bind together ?_ fun _ => ?_
    · exact always_sayAll nothing together remark _
    · split
      · exact .done nothing _
      · exact rest _
  induction left generalizing attempt with
  | zero => exact attempt_always 0 attempt fun _ => .done nothing _
  | succ left ih => exact attempt_always (left + 1) attempt fun _ => ih (attempt + 1)

end Always

/-! ### All chunks -/

/-- As many different numbers below a bound as there are include each of them. -/
theorem mem_of_nodup {l : List Nat} {n i : Nat} (nodup : l.Nodup) (below : ∀ j ∈ l, j < n)
    (length : l.length = n) (h : i < n) : i ∈ l := by
  have within : l ⊆ List.range n := fun j mem => List.mem_range.mpr (below j mem)
  have enough : (List.range n).length ≤ l.length := Nat.le_of_eq (List.length_range.trans length.symm)
  -- A list without repetitions inside a list of the same length is a permutation of it.
  have all : l.Perm (List.range n) := (nodup.subperm within).perm_of_length_le enough
  exact all.mem_iff.mpr (List.mem_range.mpr h)

/-- Chunks succeed together only when none of those that ended failed, and all have ended. -/
theorem of_chunksOutcome {count : Nat} {ended : List (Ended (Except UploadFailure Unit))}
    (h : chunksOutcome count ended = some (.ok ())) :
    (∀ e ∈ ended, ∀ r, e.result = some r → r = .ok ()) ∧
      (ended.filter fun e => e.result.isSome).length = count := by
  rw [chunksOutcome] at h
  split at h
  -- A final outcome is a failure.
  · rename_i outcome found
    obtain rfl := Option.some.inj h
    obtain ⟨e, _, final⟩ := List.exists_of_findSome?_eq_some found
    obtain ⟨_, failed⟩ := Option.filter_eq_some_iff.mp final
    exact nomatch failed
  · rename_i none_final
    split at h
    · rename_i count_eq
      refine ⟨fun e mem r result => ?_, count_eq⟩
      have not_final := List.findSome?_eq_none_iff.mp none_final e mem
      rw [result] at not_final
      cases r with
      | ok _ => rfl
      | error failure => simp [isFinal] at not_final
    · exact nomatch h

/-- When the chunks of an upload **succeed together**, each of them has come to its success. -/
theorem course_of_chunksOutcome {σ : Type} {env : Environment J σ} {w : World J σ} {u : Upload}
    {c : UploadConfig} {p : UploadPlan} {pool : Pool J σ (Except UploadFailure Unit)}
    {trace : List (Act J)} (explained : pool.Explained env (u.chunkWorkflows client c p) w trace)
    (success : chunksOutcome p.chunks.length pool.ended = some (.ok ())) {i : Nat}
    {q : Workflow J (Except UploadFailure Unit)} (found : (u.chunkWorkflows client c p)[i]? = some q) :
    ∃ s s', Course i q s (own i trace) (.done (.ok ())) s' := by
  obtain ⟨none_failed, count⟩ := of_chunksOutcome success
  have workflows : (u.chunkWorkflows client c p).length = p.chunks.length := List.length_map _
  -- As many chunks have come to a result as there are, and none twice, so this one has.
  have mem : i ∈ (pool.ended.filter fun e => e.result.isSome).map Ended.id := by
    refine mem_of_nodup ?_ ?_ ?_ (List.getElem?_eq_some_iff.mp found).1
    · exact explained.ended_apart.sublist (List.filter_sublist.map _)
    · intro j mem
      obtain ⟨e, here, rfl⟩ := List.mem_map.mp mem
      obtain ⟨q, _, at_id, _⟩ := explained.ended e (List.mem_filter.mp here).1
      exact (List.getElem?_eq_some_iff.mp at_id).1
    · rw [List.length_map, count, workflows]
  obtain ⟨e, here, rfl⟩ := List.mem_map.mp mem
  obtain ⟨ended, some⟩ := List.mem_filter.mp here
  obtain ⟨r, result⟩ := Option.isSome_iff_exists.mp some
  obtain ⟨_, s, at_id, course⟩ := explained.ended e ended
  obtain rfl := Option.some.inj (found.symm.trans at_id)
  obtain rfl := none_failed e ended r result
  rw [result] at course
  exact ⟨s, e.time, course⟩

/-! ### The place for the file -/

/-- There is a plan for a place exactly when one can be made. -/
theorem planFor_eq_ok_iff_make {u : Upload} {a : Allocation} {plan : UploadPlan} :
    u.planFor a = .ok plan ↔
      UploadPlan.make u.hash u.size a.chunkSize a.bucket a.fileId = .ok plan := by
  rw [planFor]
  cases UploadPlan.make u.hash u.size a.chunkSize a.bucket a.fileId with
  | ok p => simp [Except.mapError]
  | error fault => simp [Except.mapError]

/-- The plan and the file that an answer of the index comes to. -/
def placeFor (u : Upload) :
    Except FailedCall AllocationReply → Except UploadFailure (UploadPlan × UploadedFile)
  | .error failure => .error (.allocation failure)
  | .ok (.success a) => (u.planFor a).map fun plan => (plan, fileIn a)
  | .ok refusal => .error (.allocationRefused refusal)

/-- An answer comes to a file exactly when it names a place for which there is a plan. -/
theorem placeFor_eq_ok_iff_planFor {u : Upload} {answer : Except FailedCall AllocationReply}
    {plan : UploadPlan} {file : UploadedFile} :
    u.placeFor answer = .ok (plan, file) ↔
      ∃ a, answer = .ok (.success a) ∧ u.planFor a = .ok plan ∧ file = fileIn a := by
  constructor
  · intro place
    match answer, place with
    | .ok (.success a), place =>
      rw [placeFor] at place
      cases planned : u.planFor a with
      | ok p =>
        rw [planned] at place
        obtain ⟨rfl, rfl⟩ := Prod.mk.inj (Except.ok.inj place)
        exact ⟨a, rfl, planned, rfl⟩
      | error failure =>
        rw [planned] at place
        exact nomatch place
  · rintro ⟨a, rfl, planned, rfl⟩
    rw [placeFor, planned]
    rfl

/-- The events of an answer of the index. -/
def placeEvents (u : Upload) : Except FailedCall AllocationReply → List Event
  | .error _ => []
  | .ok (.success a) => (u.planFor a).toOption.toList.map allocatedEvent
  | .ok refusal => [u.refusedEvent refusal]

/-- **Asking for a place** is one request, the events of its answer, and what the answer comes to. -/
theorem through_allocate (u : Upload) (client : StorageClient J) :
    u.allocate.run.through client =
      (client (.allocate u.allocationArgs)).bind fun answer =>
        (sayAll (u.placeEvents answer)).bind fun _ => .done (u.placeFor answer) := by
  unfold allocate
  refine (Workflow.through_run_ask_bind (I := storage) client _ _).trans ?_
  congr 1
  funext answer
  cases answer with
  | error failure => rfl
  | ok reply =>
    cases reply with
    | success a =>
      unfold placeEvents placeFor
      dsimp only
      cases plan : u.planFor a with
      | ok plan => exact Workflow.through_run_say_bind (I := storage) client _ _
      | error failure => rfl
    | _ => exact Workflow.through_run_say_bind (I := storage) client _ _

/-! ### Whole uploads -/

section Runs

variable {σ : Type} {env : Environment J σ} {w w₀ : World J σ} {u : Upload}
  {answer : Except FailedCall AllocationReply} {plan : UploadPlan} {file : UploadedFile}
  {failure : UploadFailure}

/-- A request to the storage itself is made and answered. -/
theorem run_direct_eq (env : Environment storage σ) (w : World storage σ)
    (r : StorageRequest) :
    (StorageClient.direct r).run env w
      = (w.afterAnswer 0 r (env w.state w.now r), some (env w.state w.now r).answer) := by
  have ran := Workflow.run_ask_bind env w r .done
  rw [Workflow.bind_done] at ran
  exact ran

/-- Recording events is remarking on them. -/
theorem run_sayAll (env : Environment J σ) (w : World J σ) (es : List Event) :
    (sayAll es).run env w = (w.remark 0 es, some ()) :=
  Workflow.run_remarking env w es (.done ())

/-- An upload whose index gave **no place** remarks on it and fails. -/
theorem run_eq_of_refusal (c : UploadConfig) (steps : Nat)
    (asked : (client (.allocate u.allocationArgs)).run env w = (w₀, some answer))
    (refused : u.placeFor answer = .error failure) :
    u.run client env steps c w = (w₀.remark 0 (u.placeEvents answer), some (.error failure)) := by
  have ran : (u.allocate.run.through client).run env w
      = (w₀.remark 0 (u.placeEvents answer), some (.error failure)) := by
    rw [through_allocate, Workflow.run_bind, asked]
    simp only [Workflow.run_bind, run_sayAll, refused, Workflow.run]
  rw [run, ran]

/-- An upload whose index gave **a place** remarks on it, runs its chunks side by side, and ends as
they do. -/
theorem run_eq_of_place (c : UploadConfig) (steps : Nat) {w₁ : World J σ}
    (asked : (client (.allocate u.allocationArgs)).run env w = (w₀, some answer))
    (place : u.placeFor answer = .ok (plan, file))
    (remarked : w₁ = w₀.remark 0 (u.placeEvents answer)) :
    ∃ es, u.run client env steps c w =
      (((u.chunkPool client c plan w₁).run env isFinal steps).world.remark 0 es,
        (chunksOutcome plan.chunks.length
          ((u.chunkPool client c plan w₁).run env isFinal steps).ended).map
            (Except.map fun _ => file)) := by
  have ran : (u.allocate.run.through client).run env w = (w₁, some (.ok (plan, file))) := by
    rw [through_allocate, Workflow.run_bind, asked, remarked]
    simp only [Workflow.run_bind, run_sayAll, place, Workflow.run]
  rw [run, ran]
  simp only [runChunks]
  generalize (u.chunkPool client c plan w₁).run env isFinal steps = pool
  -- Only success is remarked on.
  cases chunksOutcome plan.chunks.length pool.ended with
  | none => exact ⟨[], rfl⟩
  | some result =>
    cases result with
    | error failure => exact ⟨[], rfl⟩
    | ok _ => exact ⟨[completeEvent plan], rfl⟩

/-- Without a place the world passes through remarks. -/
theorem run_of_refusal (c : UploadConfig) (steps : Nat)
    (asked : (client (.allocate u.allocationArgs)).run env w = (w₀, some answer))
    (refused : u.placeFor answer = .error failure) :
    ∃ remarks, (u.run client env steps c w).2 = some (.error failure) ∧
      Passage env w₀ (u.run client env steps c w).1 remarks ∧ ∀ a ∈ remarks, a.IsRemark := by
  obtain ⟨remarks, passage, all⟩ := w₀.exists_passage_remark env 0 (u.placeEvents answer)
  rw [run_eq_of_refusal c steps asked refused]
  exact ⟨remarks, rfl, passage, all⟩

/-- With a place it passes through remarks, what the chunks do side by side, and remarks again. -/
theorem run_of_place (c : UploadConfig) (steps : Nat)
    (asked : (client (.allocate u.allocationArgs)).run env w = (w₀, some answer))
    (place : u.placeFor answer = .ok (plan, file)) :
    ∃ remarks w₁ trace, ∃ pool : Pool J σ (Except UploadFailure Unit), ∃ closing,
      Passage env w₀ w₁ remarks ∧ (∀ a ∈ remarks, a.IsRemark) ∧
      pool.Explained env (u.chunkWorkflows client c plan) w₁ trace ∧
      Passage env pool.world (u.run client env steps c w).1 closing ∧ (∀ a ∈ closing, a.IsRemark) ∧
      (u.run client env steps c w).2
        = (chunksOutcome plan.chunks.length pool.ended).map (Except.map fun _ => file) := by
  obtain ⟨remarks, passage, all⟩ := w₀.exists_passage_remark env 0 (u.placeEvents answer)
  obtain ⟨es, ran⟩ := run_eq_of_place c steps asked place rfl
  obtain ⟨trace, explained⟩ := Pool.explained_run env isFinal steps
    (w₀.remark 0 (u.placeEvents answer)) c.concurrency (u.chunkWorkflows client c plan)
  obtain ⟨closing, after, closed⟩ := ((u.chunkPool client c plan
    (w₀.remark 0 (u.placeEvents answer))).run env isFinal steps).world.exists_passage_remark env 0 es
  rw [ran]
  exact ⟨remarks, _, trace, _, closing, passage, all, explained, after, closed, rfl⟩

end Runs

end Upload

end CertifiedCalls
