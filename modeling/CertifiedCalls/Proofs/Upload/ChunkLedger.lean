import CertifiedCalls.Proofs.Upload.Attempts

/-! # The ledger of an upload
The chunks of an upload are a **batch**. Its ledger says that each chunk has been attempted one time
after the other, that chunks were first sent in the order of their indices, and that whoever ended the
upload had all of its attempts fail (`Upload.Batch.ledger`). The ledger is sound, whatever the storage
answers (`Upload.Batch.sound`). What the storage is known to answer is a **promise** that it keeps. -/

namespace CertifiedCalls

variable {σ : Type}

namespace Upload

/-- The entries of a caller that are about requests. -/
def exchangesOf (caller : Nat) (record : List (Entry storage)) : List (Entry storage) :=
  exchanges (entriesOf caller record)

/-- What a caller adds to a record is added to its entries. -/
theorem exchangesOf_append {caller : Nat} {es : List (Entry storage)} (log : List (Entry storage))
    (mine : ∀ e ∈ es, e.caller = caller) :
    exchangesOf caller (log ++ es) = exchangesOf caller log ++ exchanges es := by
  rw [exchangesOf, entriesOf_append, entriesOf_of_all mine, exchanges_append]
  rfl

/-- So is an entry about a request. -/
theorem exchangesOf_concat (log : List (Entry storage)) (time caller : Nat) {what : Happening storage}
    (about : what.request?.isSome = true) :
    exchangesOf caller (log ++ [⟨time, caller, what⟩])
      = exchangesOf caller log ++ [⟨time, caller, what⟩] := by
  have mine : ∀ e ∈ [(⟨time, caller, what⟩ : Entry storage)], e.caller = caller :=
    List.forall_mem_singleton.mpr rfl
  rw [exchangesOf_append log mine]
  exact congrArg _ (List.filter_cons_of_pos about)

theorem exchangesOf_append_remarks (caller : Nat) (log : List (Entry storage)) (time : Nat)
    (es : List Event) : exchangesOf caller (log ++ remarks time caller es) = exchangesOf caller log := by
  rw [exchangesOf_append log (caller_of_mem_remarks time caller es), exchanges_remarks, List.append_nil]

/-- A storage keeps a **promise** about its answers to chunks, given how often the chunk of each index
has been sent. -/
structure Promise (env : Environment storage σ) where
  /-- In such a state, after so many sendings of each chunk, the promise is kept. -/
  keeps : σ → (UInt32 → Nat) → Prop
  /-- The attempt of a number at the chunk of an index may be given an answer. -/
  gives : UInt32 → Nat → Except FailedCall ChunkReply → Prop
  /-- The next answer is as promised. -/
  kept : ∀ (state : σ) (sent : UInt32 → Nat) (now : Nat) (bucket : CanisterId) (args : ChunkArgs),
    keeps state sent →
    keeps (env state now (.store bucket args)).state
        (Function.update sent args.index (sent args.index + 1)) ∧
      gives args.index (sent args.index + 1) (env state now (.store bucket args)).answer

/-- Nothing is promised. -/
def Promise.nothing (env : Environment storage σ) : Promise env where
  keeps _ _ := True
  gives _ _ _ := True
  kept _ _ _ _ _ _ := ⟨trivial, trivial⟩

/-- A **batch** of chunks that are sent to one bucket. -/
structure Batch where
  /-- The bucket. -/
  bucket : CanisterId
  /-- How many chunks there are. -/
  count : Nat
  /-- What is sent with each. -/
  args : Nat → ChunkArgs
  /-- How often each is tried. -/
  attempts : Nat
  /-- Chunks are numbered. -/
  index_eq : ∀ i, (args i).index = .ofNat i
  /-- Their numbers are words of 32 bits. -/
  count_le : count ≤ 4294967296
  /-- Each is tried. -/
  pos : 0 < attempts

namespace Batch

variable {env : Environment storage σ} (b : Batch) (promise : Promise env)

/-- The request for a chunk. -/
def request (i : Nat) : StorageRequest := .store b.bucket (b.args i)

/-- A chunk is sent. -/
def sent (i number : Nat) : Happening storage := chunkSent b.bucket (b.args i) number

/-- A chunk is answered. -/
def answered (i number : Nat) (answer : Except FailedCall ChunkReply) : Happening storage :=
  chunkAnswered b.bucket (b.args i) number answer

/-- What is left of a chunk to do when an attempt has been answered. -/
def afterAnswer (i left attempt : Nat) (answer : Except FailedCall ChunkReply) :
    Workflow storage (Except UploadFailure Unit) :=
  .remarking (answerEvents (b.args i) attempt answer) <|
    if storedBy answer then .done (.ok ())
    else (afterFault b.bucket (b.args i) left attempt (faultOf answer)).run.through StorageClient.direct

/-- The attempts at a chunk. -/
def attempt (i left attempt : Nat) : Workflow storage (Except UploadFailure Unit) :=
  (tryChunk b.bucket (b.args i) left attempt).run.through StorageClient.direct

/-- Each is one request, and what its answer leads to. -/
theorem attempt_eq (i left attempt : Nat) :
    b.attempt i left attempt =
      (Workflow.ask (I := storage) (b.request i)).bind (b.afterAnswer i left attempt) := by
  refine (through_tryChunk StorageClient.direct b.bucket (b.args i) left attempt).trans ?_
  show Workflow.bind _ _ = _
  congr 1
  funext answer
  exact Workflow.remarking_bind _ (.done ()) _

/-- Different chunks have different indices. -/
theorem index_inj {i j : Nat} (hi : i < b.count) (hj : j < b.count)
    (same : UInt32.ofNat i = UInt32.ofNat j) : i = j := by
  have le := b.count_le
  have same := congrArg UInt32.toNat same
  rwa [UInt32.toNat_ofNat_of_lt' (show i < 4294967296 by omega),
    UInt32.toNat_ofNat_of_lt' (show j < 4294967296 by omega)] at same

/-! ### The ledger -/

/-- The entries of a record are **attempts at the chunks** of a batch. -/
abbrev Tried (i made : Nat) (standing : Standing) (es : List (Entry storage)) : Prop :=
  Attempted b.bucket (b.args i) i (promise.gives (b.args i).index) made standing es

/-- What holds of a record of the chunks of a batch. -/
structure Book (log : List (Entry storage)) (state : σ) (begun : Nat) : Prop where
  /-- No more have begun than there are. -/
  begun_le : begun ≤ b.count
  /-- Those that have begun were first sent in their order. -/
  order : startOrder log = (List.range begun).map UInt32.ofNat
  /-- All requests are for chunks of the batch. -/
  own : ∀ e ∈ log, ∀ r, e.what.request? = some r → e.caller < b.count ∧ r = b.request e.caller
  /-- The promise has been kept. -/
  kept : promise.keeps state fun index => sendings index log

/-- What holds of the entries of a chunk that can go on. -/
inductive Going (es : List (Entry storage)) : Ready storage (Except UploadFailure Unit) → Prop
  /-- It has not begun. -/
  | fresh {i : Nat} (within : i < b.count) (nothing : es = []) :
    Going es ⟨i, none, b.attempt i (b.attempts - 1) 1⟩
  /-- An attempt has been answered. -/
  | answered {i made left number : Nat} {answer : Except FailedCall ChunkReply} (within : i < b.count)
    (total : made + left = b.attempts) (asked : b.Tried promise i made (.asking number) (exchanges es))
    (given : promise.gives (b.args i).index made answer) :
    Going es ⟨i, some (b.answered i number answer), b.afterAnswer i left made answer⟩

/-- A chunk that can go on has done nothing, or has an attempt under way. -/
theorem Going.nothing_or_asked {b : Batch} {promise : Promise env} {es : List (Entry storage)}
    {task : Ready storage (Except UploadFailure Unit)} (h : b.Going promise es task) :
    (task.what = none ∧ es = []) ∨
      task.what ≠ none ∧ task.id < b.count ∧ ∃ made number, made ≤ b.attempts ∧
        b.Tried promise task.id made (.asking number) (exchanges es) := by
  cases h with
  | fresh _ nothing => exact .inl ⟨rfl, nothing⟩
  | @answered i made left number _ within total asked _ =>
    exact .inr ⟨nofun, within, made, number, by omega, asked⟩

/-- What holds of the entries of a chunk that has been stored. -/
def Finished (es : List (Entry storage)) (e : Ended (Except UploadFailure Unit)) : Prop :=
  e.result = some (.ok ()) ∧ ∃ made ≤ b.attempts, b.Tried promise e.id made .stored (exchanges es)

/-- What holds of the record when all attempts at a chunk have failed: the answer to the last is the
last entry, apart from remarks. -/
def Last (log : List (Entry storage)) (e : Ended (Except UploadFailure Unit)) : Prop :=
  ∃ front time number answer back,
    log = front ++ ⟨time, e.id, b.answered e.id number answer⟩ :: back ∧
    (∀ entry ∈ back, entry.what.request? = none) ∧ storedBy answer = false ∧
    promise.gives (b.args e.id).index b.attempts answer ∧
    b.Tried promise e.id b.attempts .failing (exchangesOf e.id log) ∧
    e.result = some (.error (.chunkFailed (b.args e.id).index b.attempts (faultOf answer)))

/-- The **ledger** of a batch. -/
def ledger : Ledger storage σ (Except UploadFailure Unit) where
  book := b.Book promise
  going := b.Going promise
  finished := b.Finished promise
  last := b.Last promise
  left es := b.attempts - (exchanges es).countP isSending

/-! ### The record -/

variable {b promise} {log : List (Entry storage)} {state : σ} {begun : Nat}

namespace Book

/-- A record says about a chunk what its caller did. -/
theorem aboutChunk_eq (h : b.Book promise log state begun) {i : Nat} (within : i < b.count) :
    aboutChunk (b.args i).index log = exchangesOf i log := by
  rw [aboutChunk, exchangesOf, exchanges, entriesOf, List.filter_filter]
  refine List.filter_congr fun e mem => ?_
  cases r : e.what.request? with
  | none => simp [chunkOf, r]
  | some r' =>
    obtain ⟨below, rfl⟩ := h.own e mem r' r
    have here : chunkOf e = some (b.args e.caller).index := by simp [chunkOf, r, request]
    have iff : (b.args e.caller).index = (b.args i).index ↔ e.caller = i := by
      refine ⟨fun same => b.index_inj below within ?_, fun same => by rw [same]⟩
      rw [← b.index_eq, ← b.index_eq, same]
    simp [here, iff]

/-- It says nothing about others. -/
theorem aboutChunk_eq_nil (h : b.Book promise log state begun) {index : UInt32}
    (other : ∀ i < b.count, (b.args i).index ≠ index) : aboutChunk index log = [] := by
  refine List.filter_eq_nil_iff.mpr fun e mem about => ?_
  have about : chunkOf e = some index := of_decide_eq_true about
  cases r : e.what.request? with
  | none => simp [chunkOf, r] at about
  | some r' =>
    obtain ⟨below, rfl⟩ := h.own e mem r' r
    simp only [chunkOf, r, request, Option.some.injEq] at about
    exact other e.caller below about

/-- A chunk that has been sent has begun. -/
theorem lt_begun (h : b.Book promise log state begun) {i made number : Nat} (within : i < b.count)
    (asked : b.Tried promise i made (.asking number) (exchangesOf i log)) : i < begun := by
  obtain ⟨e, mem, sent⟩ : ∃ e ∈ log, sentChunk e = some (b.args i).index := by
    generalize here : exchangesOf i log = es at asked
    cases asked with
    | @ask made time es number _ _ =>
      have mem : ⟨time, i, b.sent i number⟩ ∈ exchangesOf i log := by
        rw [here]
        exact List.mem_append_right _ List.mem_cons_self
      exact ⟨_, List.mem_of_mem_filter (List.mem_of_mem_filter mem), rfl⟩
  have started : (b.args i).index ∈ startOrder log :=
    List.mem_eraseDups.mpr (List.mem_filterMap.mpr ⟨e, mem, sent⟩)
  rw [h.order, b.index_eq] at started
  obtain ⟨j, mem, same⟩ := List.mem_map.mp started
  have less := List.mem_range.mp mem
  exact b.index_inj (Nat.lt_of_lt_of_le less h.begun_le) within same ▸ less

/-- What sends nothing changes nothing. -/
theorem quiet (h : b.Book promise log state begun) {es : List (Entry storage)}
    (silent : ∀ e ∈ es, sentChunk e = none)
    (own : ∀ e ∈ es, ∀ r, e.what.request? = some r → e.caller < b.count ∧ r = b.request e.caller) :
    b.Book promise (log ++ es) state begun where
  begun_le := h.begun_le
  order := by
    have none : es.filterMap sentChunk = [] := List.filterMap_eq_nil_iff.mpr silent
    rw [startOrder, List.filterMap_append, none, List.append_nil]
    exact h.order
  own := List.forall_mem_append.mpr ⟨h.own, own⟩
  kept := by
    have same : (fun index => sendings index (log ++ es)) = fun index => sendings index log := by
      funext index
      have none : sendings index es = 0 := List.countP_eq_zero.mpr fun e mem => by
        rw [isSending, silent e (List.mem_of_mem_filter mem)]
        exact Bool.false_ne_true
      rw [sendings_append, none, Nat.add_zero]
    rw [same]
    exact h.kept

/-- So do remarks. -/
theorem remark (h : b.Book promise log state begun) (time caller : Nat) (es : List Event) :
    b.Book promise (log ++ remarks time caller es) state begun := by
  refine h.quiet (fun e mem => ?_) fun e mem r asked => ?_
  · obtain ⟨_, _, rfl⟩ := List.mem_map.mp mem
    rfl
  · obtain ⟨_, _, rfl⟩ := List.mem_map.mp mem
    exact nomatch asked

/-- So do answers. -/
theorem answer (h : b.Book promise log state begun) {i : Nat} (within : i < b.count)
    (time number : Nat) (answer : Except FailedCall ChunkReply) :
    b.Book promise (log ++ [⟨time, i, b.answered i number answer⟩]) state begun := by
  refine h.quiet (List.forall_mem_singleton.mpr rfl) (List.forall_mem_singleton.mpr fun r asked => ?_)
  exact ⟨within, (Option.some.inj asked).symm⟩

/-- A chunk that is sent has begun, and is answered as promised. -/
theorem ask (h : b.Book promise log state begun) {i : Nat} (within : i < b.count) (le : i ≤ begun)
    (time number now : Nat) :
    b.Book promise (log ++ [⟨time, i, b.sent i number⟩])
        (env state now (b.request i)).state (max begun (i + 1)) ∧
      promise.gives (b.args i).index (sendings (b.args i).index log + 1)
        (env state now (b.request i)).answer := by
  obtain ⟨keeps, gives⟩ := promise.kept state _ now b.bucket (b.args i) h.kept
  have sent (index : UInt32) : sendings index [⟨time, i, b.sent i number⟩]
      = if index = (b.args i).index then 1 else 0 := by
    have about : chunkOf ⟨time, i, b.sent i number⟩ = some (b.args i).index := rfl
    rw [sendings, aboutChunk, List.filter_singleton, about]
    by_cases same : index = (b.args i).index
    · subst same
      simp only [decide_true, if_true]
      rfl
    · simp [same, Ne.symm same]
  refine ⟨⟨?_, ?_, ?_, ?_⟩, gives⟩
  · have := h.begun_le
    omega
  · have sends : sentChunk ⟨time, i, b.sent i number⟩ = some (b.args i).index := rfl
    rw [startOrder_concat log sends, h.order, b.index_eq]
    rcases Nat.lt_or_eq_of_le le with before | rfl
    · rw [if_pos (List.mem_map_of_mem (List.mem_range.mpr before)), Nat.max_eq_left before]
    · have first : UInt32.ofNat i ∉ (List.range i).map UInt32.ofNat := by
        intro mem
        obtain ⟨j, mem, same⟩ := List.mem_map.mp mem
        have less := List.mem_range.mp mem
        exact Nat.ne_of_lt less (b.index_inj (Nat.lt_trans less within) within same)
      rw [if_neg first, Nat.max_eq_right (Nat.le_succ i), List.range_succ, List.map_append]
      rfl
  · refine List.forall_mem_append.mpr ⟨h.own, List.forall_mem_singleton.mpr fun r asked => ?_⟩
    exact ⟨within, (Option.some.inj asked).symm⟩
  · have counted : (fun index => sendings index (log ++ [⟨time, i, b.sent i number⟩]))
        = Function.update (fun index => sendings index log) (b.args i).index
          (sendings (b.args i).index log + 1) := by
      funext index
      rw [sendings_append, sent, Function.update_apply]
      split
      · rename_i same
        rw [same]
      · rfl
    rw [counted]
    exact keeps

end Book

/-! ### Turns -/

section Turns

variable {i left made number : Nat}

/-- Attempts at a chunk **go on** when some have failed and so many are left after the next. -/
def GoesOn (b : Batch) (promise : Promise env) (i left made : Nat) : Prop :=
  ∀ (w : World storage σ) (q : KeyQueue) (log : List (Entry storage)) (begun : Nat),
    b.Book promise log w.state begun → i ≤ begun → b.Tried promise i made .failing (exchangesOf i log) →
    (∀ e, (exchangesOf i log).getLast? = some e → e.time = w.now) →
    ∃ w' q' stop more, Pool.advance env i w q (b.attempt i left (made + 1)) = (w', q', stop) ∧
      (b.ledger promise).Turn isFinal i w log w' stop more (max begun (i + 1))

/-- Sending a chunk is added to its entries. -/
theorem exchangesOf_sent (log : List (Entry storage)) (time number : Nat) :
    exchangesOf i (log ++ [⟨time, i, b.sent i number⟩])
      = exchangesOf i log ++ [⟨time, i, b.sent i number⟩] :=
  exchangesOf_concat log time i rfl

/-- So is its answer. -/
theorem exchangesOf_answered (log : List (Entry storage)) (time : Nat)
    (answer : Except FailedCall ChunkReply) :
    exchangesOf i (log ++ [⟨time, i, b.answered i number answer⟩])
      = exchangesOf i log ++ [⟨time, i, b.answered i number answer⟩] :=
  exchangesOf_concat log time i rfl

/-- Remarks send nothing. -/
theorem left_append_remarks (log : List (Entry storage)) (time : Nat) (es : List Event) :
    (b.ledger promise).left (entriesOf i (log ++ remarks time i es))
      = (b.ledger promise).left (entriesOf i log) := by
  show b.attempts - (exchangesOf i _).countP isSending = _
  rw [exchangesOf_append_remarks]
  rfl

/-- Nor do answers. -/
theorem left_append_answered (log : List (Entry storage)) (time : Nat)
    (answer : Except FailedCall ChunkReply) :
    (b.ledger promise).left
        (entriesOf i (log ++ [⟨time, i, b.answered i number answer⟩]))
      = (b.ledger promise).left (entriesOf i log) := by
  show b.attempts - (exchangesOf i _).countP isSending = _
  rw [exchangesOf_answered, List.countP_append]
  rfl

/-- What an **answer** leads to. -/
theorem turn_of_answered (within : i < b.count) (total : made + left = b.attempts)
    (rest : ∀ left', left = left' + 1 → b.GoesOn promise i left' made) {w : World storage σ}
    (q : KeyQueue) {answer : Except FailedCall ChunkReply}
    (book : b.Book promise log w.state begun) (started : i < begun)
    (asked : b.Tried promise i made (.asking number) (exchangesOf i log))
    (given : promise.gives (b.args i).index made answer) :
    ∃ w' q' stop more,
      Pool.advance env i (w.note i (b.answered i number answer)) q (b.afterAnswer i left made answer)
        = (w', q', stop) ∧
      (b.ledger promise).Turn isFinal i w log w' stop more begun := by
  let entry : Entry storage := ⟨w.now, i, b.answered i number answer⟩
  let events := answerEvents (b.args i) made answer
  let w₁ := (w.note i entry.what).remark i events
  let first := [entry] ++ remarks w.now i events
  have advanced : Pool.advance env i (w.note i entry.what) q (b.afterAnswer i left made answer)
      = Pool.advance env i w₁ q (if storedBy answer then .done (.ok ())
        else (afterFault b.bucket (b.args i) left made (faultOf answer)).run.through
          StorageClient.direct) :=
    Pool.advance_remarking env i (w.note i entry.what) q events _
  have record : w₁.record = w.record ++ first := by
    rw [World.record_remark, World.record_note, List.append_assoc]
    rfl
  have mine : ∀ e ∈ first, e.caller = i := List.forall_mem_append.mpr
    ⟨List.forall_mem_singleton.mpr rfl, caller_of_mem_remarks w.now i events⟩
  have book₁ : b.Book promise (log ++ first) w.state begun := by
    rw [← List.append_assoc]
    exact (book.answer within w.now number answer).remark w.now i events
  have exchanged : exchangesOf i (log ++ first) = exchangesOf i log ++ [entry] := by
    rw [← List.append_assoc, exchangesOf_append_remarks]
    exact exchangesOf_answered log w.now answer
  have left_eq : (b.ledger promise).left (entriesOf i (log ++ first))
      = (b.ledger promise).left (entriesOf i log) := by
    rw [← List.append_assoc, left_append_remarks]
    exact left_append_answered log w.now answer
  have le : made ≤ b.attempts := total ▸ Nat.le_add_right made left
  rw [advanced]
  cases stored : storedBy answer with
  | true =>
    -- The chunk is stored.
    refine ⟨w₁, q, .ended (some (.ok ())), first, rfl, rfl, record, mine, book₁, left_eq.le, ?_⟩
    refine .finished rfl ⟨rfl, made, le, ?_⟩
    show b.Tried promise i made .stored (exchangesOf i (log ++ first))
    rw [exchanged]
    exact .store w.now asked given stored
  | false =>
    have failed : b.Tried promise i made .failing (exchangesOf i (log ++ first)) := by
      rw [exchanged]
      exact .fail w.now asked given stored
    cases left with
    | zero =>
      -- The last attempt has failed.
      obtain rfl : made = b.attempts := total
      refine ⟨w₁, q, .ended (some (.error (.chunkFailed _ b.attempts (faultOf answer)))), first, rfl,
        rfl, record, mine, book₁, left_eq.le, .last rfl ?_⟩
      refine ⟨log, w.now, number, answer, remarks w.now i events, rfl, fun e mem => ?_, stored, given,
        failed, rfl⟩
      obtain ⟨_, _, rfl⟩ := List.mem_map.mp mem
      rfl
    | succ left =>
      -- The chunk is tried again at once.
      have last (e : Entry storage) (h : (exchangesOf i (log ++ first)).getLast? = some e) :
          e.time = w₁.now := by
        rw [exchanged, List.getLast?_concat] at h
        rw [← Option.some.inj h]
        rfl
      obtain ⟨w', q', stop, more, advanced, turn⟩ := rest left rfl w₁ q (log ++ first) begun book₁
        (Nat.le_of_lt started) failed last
      rw [Nat.max_eq_left started] at turn
      exact ⟨w', q', stop, first ++ more, advanced, turn.after rfl record mine left_eq.le⟩

/-- Sending a chunk once more uses up an attempt. -/
theorem left_append_sent (total : made + 1 + left = b.attempts)
    (failed : b.Tried promise i made .failing (exchangesOf i log)) (time number : Nat) :
    (b.ledger promise).left (entriesOf i (log ++ [⟨time, i, b.sent i number⟩]))
      < (b.ledger promise).left (entriesOf i log) := by
  show b.attempts - (exchangesOf i _).countP isSending
    < b.attempts - (exchangesOf i log).countP isSending
  rw [exchangesOf_sent, List.countP_append, failed.countP_isSending]
  show b.attempts - (made + 1) < b.attempts - made
  omega

/-- **Attempts go on** until one is not answered at once, one stores the chunk, or all have failed. -/
theorem goesOn (within : i < b.count) (total : made + 1 + left = b.attempts) :
    b.GoesOn promise i left made := by
  -- On the attempts that are left after the next.
  induction left using Nat.strongRecOn generalizing made with
  | ind left ih =>
    intro w q log begun book le failed last
    let served := env w.state w.now (b.request i)
    let w₁ := w.afterAsking i (b.request i) served.state
    let entry : Entry storage := ⟨w.now, i, b.sent i w.asked⟩
    obtain ⟨book₁, given⟩ := book.ask within le w.now w.asked w.now
    rw [sendings, book.aboutChunk_eq within, failed.countP_isSending] at given
    have asked : b.Tried promise i (made + 1) (.asking w.asked) (exchangesOf i (log ++ [entry])) := by
      rw [exchangesOf_sent]
      exact .ask w.asked failed last
    have fewer := left_append_sent total failed w.now w.asked
    have record : w₁.record = w.record ++ [entry] := World.record_afterAsking w i (b.request i) _
    have mine : ∀ e ∈ [entry], e.caller = i := List.forall_mem_singleton.mpr rfl
    have advance : Pool.advance env i w q (b.attempt i left (made + 1))
        = Pool.advance env i w q ((Workflow.ask (I := storage) (b.request i)).bind
          (b.afterAnswer i left (made + 1))) := congrArg _ (b.attempt_eq i left (made + 1))
    rcases Nat.eq_zero_or_pos served.delay with zero | pos
    · have at_once := advance.trans (Pool.advance_ask_bind_of_zero zero i q _)
      obtain ⟨w', q', stop, more, advanced, turn⟩ := turn_of_answered (w := w₁) within total
        (fun left' e => ih left' (by omega) (by omega)) q book₁
        (Nat.lt_of_succ_le (Nat.le_max_right _ _)) asked given
      exact ⟨w', q', stop, [entry] ++ more, at_once.trans advanced,
        turn.after rfl record mine fewer.le⟩
    · have later := advance.trans (Pool.advance_ask_bind_of_pos pos i q _)
      exact ⟨_, _, _, [entry], later, rfl, record, mine, book₁, fewer.le,
        .waits (Nat.lt_add_of_pos_right pos) (.answered within total asked given) fewer⟩

end Turns

/-- **The ledger of a batch is sound**, whatever the storage answers. -/
theorem sound (b : Batch) (promise : Promise env) : (b.ledger promise).Sound env isFinal := by
  intro w q log begun task book going in_order
  cases going with
  | @fresh i within nothing =>
    obtain rfl : i = begun := in_order rfl
    have none : exchangesOf i log = [] := congrArg exchanges nothing
    have total : 0 + 1 + (b.attempts - 1) = b.attempts := by
      have := b.pos
      omega
    have goes : b.GoesOn promise i (b.attempts - 1) 0 := goesOn within total
    obtain ⟨w', q', stop, more, advanced, turn⟩ := goes w q log i book (Nat.le_refl i)
      (none ▸ .none) (fun e h => by rw [none] at h; exact nomatch h)
    rw [Nat.max_eq_right (Nat.le_succ i)] at turn
    exact ⟨w', q', stop, more, advanced, turn⟩
  | @answered i made left number answer within total asked given =>
    exact turn_of_answered within total (fun left' e => goesOn within (by omega)) q book
      (book.lt_begun within asked) asked given

end Batch

end Upload

end CertifiedCalls
