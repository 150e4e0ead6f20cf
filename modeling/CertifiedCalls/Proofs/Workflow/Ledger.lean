import CertifiedCalls.Proofs.Workflow.Explained
import CertifiedCalls.Proofs.Workflow.Remarks
import CertifiedCalls.Proofs.Workflow.Waking
import Mathlib.Algebra.Order.BigOperators.Group.Finset

/-! # Ledgers of pools
A **ledger** says what the workflows of a pool have to show for themselves by the entries that each of
them has made in the record: those that can go on, those that have ended, and one whose result is
final. It is for workflows that make requests without limits and leave the shared key alone. When the
turns of single workflows keep the ledger (`Ledger.Sound`), so does every step of the pool
(`Ledger.Kept.step`) and a whole run, which stands still after enough steps (`Ledger.Kept.run`). -/

namespace CertifiedCalls

variable {I : Interface} {σ α : Type}

/-! ### Entries of one caller -/

/-- The entries of a caller in a record. -/
def entriesOf (caller : Nat) (record : List (Entry I)) : List (Entry I) :=
  record.filter fun entry => entry.caller = caller

theorem entriesOf_append (caller : Nat) (front back : List (Entry I)) :
    entriesOf caller (front ++ back) = entriesOf caller front ++ entriesOf caller back :=
  List.filter_append front back

/-- Entries that all are of one caller are its entries. -/
theorem entriesOf_of_all {caller : Nat} {es : List (Entry I)} (mine : ∀ e ∈ es, e.caller = caller) :
    entriesOf caller es = es :=
  List.filter_eq_self.mpr fun e mem => decide_eq_true (mine e mem)

/-- Nobody else has any of them. -/
theorem entriesOf_of_ne {caller other : Nat} {es : List (Entry I)} (ne : other ≠ caller)
    (mine : ∀ e ∈ es, e.caller = caller) : entriesOf other es = [] :=
  List.filter_eq_nil_iff.mpr fun e mem same => ne ((of_decide_eq_true same).symm.trans (mine e mem))

/-- What others do adds no entries to those of a caller. -/
theorem entriesOf_append_of_ne {caller other : Nat} (front : List (Entry I)) {es : List (Entry I)}
    (ne : other ≠ caller) (mine : ∀ e ∈ es, e.caller = caller) :
    entriesOf other (front ++ es) = entriesOf other front := by
  rw [entriesOf_append, entriesOf_of_ne ne mine, List.append_nil]

/-! ### Turns of a pool -/

namespace Pool

variable {env : Environment I σ} {isFinal : α → Bool} {p : Pool I σ α} {task : Ready I α}
  {w : World I σ} {q : KeyQueue}

/-- Whoever waits for a time is not called out of the line for the shared key. -/
theorem callOut_eq (idle : ∀ e ∈ p.waiting, ∃ time what next, e.2 = .until time what next) :
    p.callOut = p := by
  have none (e : Nat × Waiting I α) (mem : e ∈ p.waiting) :
      called p.world.key p.keys.holder e.1 e.2 = none := by
    obtain ⟨time, what, next, waits⟩ := idle e mem
    rw [waits]
    rfl
  have called_out : (p.waiting.filterMap fun e => called p.world.key p.keys.holder e.1 e.2) = [] :=
    List.filterMap_eq_nil_iff.mpr none
  have left : (p.waiting.filter fun e => (called p.world.key p.keys.holder e.1 e.2).isNone)
      = p.waiting :=
    List.filter_eq_self.mpr fun e mem => Option.isNone_iff_eq_none.mpr (none e mem)
  rw [callOut, wake, called_out, left, List.append_nil]

/-- A workflow that runs waits for a time, as others do. -/
theorem runNext_waits (idle : ∀ e ∈ p.waiting, ∃ time what next, e.2 = .until time what next)
    {time : Nat} {what : Option (Happening I)} {next : Workflow I α}
    (advanced : advance env task.id (task.what.elim p.world (p.world.note task.id)) p.keys task.workflow
      = (w, q, .waits (.until time what next))) :
    p.runNext env isFinal task = { p with world := w, keys := q, waiting :=
      p.waiting ++ [(task.id, .until time what next)] } := by
  rw [runNext]
  simp only [advanced]
  exact callOut_eq (List.forall_mem_append.mpr
    ⟨idle, List.forall_mem_singleton.mpr ⟨time, what, next, rfl⟩⟩)

/-- A workflow that runs ends, and the next is started. -/
theorem runNext_ended (idle : ∀ e ∈ p.waiting, ∃ time what next, e.2 = .until time what next) {a : α}
    (open_yet : isFinal a = false)
    (advanced : advance env task.id (task.what.elim p.world (p.world.note task.id)) p.keys task.workflow
      = (w, q, .ended (some a))) :
    p.runNext env isFinal task = ({ p with world := w, keys := q, ended :=
      ⟨task.id, w.now, some a⟩ :: p.ended }).startNext := by
  rw [runNext]
  simp only [advanced]
  rw [if_neg (by rw [Option.any_some, open_yet]; exact Bool.false_ne_true)]
  exact congrArg startNext (callOut_eq idle)

/-- A workflow that runs ends with a final result. -/
theorem runNext_final {a : α} (final : isFinal a = true)
    (advanced : advance env task.id (task.what.elim p.world (p.world.note task.id)) p.keys task.workflow
      = (w, q, .ended (some a))) :
    p.runNext env isFinal task = ({ p with world := w, keys := q, ended :=
      ⟨task.id, w.now, some a⟩ :: p.ended }).drop := by
  rw [runNext]
  simp only [advanced]
  exact if_pos final

/-- Running takes no time. -/
theorem now_runNext (env : Environment I σ) (isFinal : α → Bool) (task : Ready I α) (p : Pool I σ α) :
    (p.runNext env isFinal task).world.now = p.world.now := by
  have noted : (task.what.elim p.world (p.world.note task.id)).now = p.world.now := by
    cases task.what <;> rfl
  obtain ⟨_, _, same, _⟩ := advance_course env task.id
    (task.what.elim p.world (p.world.note task.id)) p.keys task.workflow
  have started (p : Pool I σ α) : p.startNext.world = p.world := by
    rw [startNext]
    split <;> rfl
  rw [← noted, ← same, runNext]
  generalize advance env task.id (task.what.elim p.world (p.world.note task.id)) p.keys task.workflow
    = stopped
  obtain ⟨w, q, stop⟩ := stopped
  cases stop with
  | waits waiting => rfl
  | ended result =>
    dsimp only
    split
    · rfl
    · rw [started]
      rfl

/-- Time passes only when nobody is ready. -/
theorem ready_eq_nil_of_later {p' : Pool I σ α} (next : p.step env isFinal = some p')
    (later : p.world.now < p'.world.now) : p.ready = [] := by
  cases ready : p.ready with
  | nil => rfl
  | cons task rest =>
    rw [step, ready] at next
    obtain rfl := Option.some.inj next
    rw [now_runNext] at later
    exact absurd later (Nat.lt_irrefl _)

/-- Starting the next workflow only moves it. -/
theorem length_startNext (p : Pool I σ α) :
    p.startNext.ready.length + p.startNext.queued.length = p.ready.length + p.queued.length := by
  rw [startNext]
  split
  · rfl
  · rename_i next rest queued
    simp only [queued, List.length_append, List.length_cons, List.length_nil]
    omega

/-- It leaves those alone that wait. -/
theorem waiting_startNext (p : Pool I σ α) : p.startNext.waiting = p.waiting := by
  rw [startNext]
  split <;> rfl

end Pool

/-! ### Ledgers -/

/-- A **ledger**. -/
structure Ledger (I : Interface) (σ α : Type) where
  /-- What holds of the record, of the state of the environment, and of how many workflows have
  begun. -/
  book : List (Entry I) → σ → Nat → Prop
  /-- What holds of the entries of a workflow that can go on. -/
  going : List (Entry I) → Ready I α → Prop
  /-- What holds of the entries of a workflow that has ended. -/
  finished : List (Entry I) → Ended α → Prop
  /-- What holds of the record when a workflow has ended with a final result. -/
  last : List (Entry I) → Ended α → Prop
  /-- How many requests a workflow may still make that has made some entries. -/
  left : List (Entry I) → Nat

namespace Ledger

variable (L : Ledger I σ α) (env : Environment I σ) (isFinal : α → Bool)

/-- How a workflow of a number **stops** at a time, when it may have made fewer requests before. -/
inductive Stopped (id now before : Nat) (log : List (Entry I)) : Stop I α → Prop
  /-- It waits for an answer, and has made a request. -/
  | waits {time : Nat} {what : Happening I} {next : Workflow I α} (later : now < time)
    (going : L.going (entriesOf id log) ⟨id, some what, next⟩)
    (fewer : L.left (entriesOf id log) < before) : Stopped id now before log
      (.waits (.until time (some what) next))
  /-- It has ended with a result that is not final. -/
  | finished {a : α} (open_yet : isFinal a = false)
    (finished : L.finished (entriesOf id log) ⟨id, now, some a⟩) :
    Stopped id now before log (.ended (some a))
  /-- It has ended with a final result. -/
  | last {a : α} (final : isFinal a = true) (last : L.last log ⟨id, now, some a⟩) :
    Stopped id now before log (.ended (some a))

/-- One **turn** of a workflow of a number, given the record so far. -/
structure Turn (id : Nat) (w : World I σ) (log : List (Entry I)) (w' : World I σ) (stop : Stop I α)
    (more : List (Entry I)) (begun : Nat) : Prop where
  /-- No time passes. -/
  now : w'.now = w.now
  /-- It only adds to the record. -/
  record : w'.record = w.record ++ more
  /-- All that it adds is its own. -/
  mine : ∀ e ∈ more, e.caller = id
  /-- With it so many workflows have begun. -/
  book : L.book (log ++ more) w'.state begun
  /-- It uses up requests. -/
  left_le : L.left (entriesOf id (log ++ more)) ≤ L.left (entriesOf id log)
  /-- It has stopped as it should. -/
  stopped : L.Stopped isFinal id w.now (L.left (entriesOf id log)) (log ++ more) stop

/-- A ledger is **sound** when single turns keep it. Workflows begin in their order. -/
def Sound : Prop :=
  ∀ (w : World I σ) (q : KeyQueue) (log : List (Entry I)) (begun : Nat) (task : Ready I α),
    L.book log w.state begun → L.going (entriesOf task.id log) task →
    (task.what = none → task.id = begun) →
    ∃ w' q' stop more,
      Pool.advance env task.id (task.what.elim w (w.note task.id)) q task.workflow = (w', q', stop) ∧
        L.Turn isFinal task.id w log w' stop more (begun + task.what.isNone.toNat)

/-- A pool **keeps** a ledger while the workflows of some numbers are taken out of it. -/
structure Kept (w₀ : World I σ) (count limit : Nat) (out : List Nat) (p : Pool I σ α)
    (log : List (Entry I)) (begun : Nat) : Prop where
  /-- The record has grown. -/
  record : p.world.record = w₀.record ++ log
  /-- The record and the state of the environment are as they should be. -/
  book : L.book log p.world.state begun
  /-- So are those that are ready. -/
  ready : ∀ task ∈ p.ready, L.going (entriesOf task.id log) task
  /-- So are those that wait, all for answers. -/
  waiting : ∀ e ∈ p.waiting, ∃ time what next, e.2 = .until time (some what) next ∧
    p.world.now < time ∧ L.going (entriesOf e.1 log) ⟨e.1, some what, next⟩
  /-- So are those that have not been started. -/
  queued : ∀ task ∈ p.queued, task.what = none ∧ L.going (entriesOf task.id log) task
  /-- So are those that have ended, none of them with a final result. -/
  ended : ∀ e ∈ p.ended, (∃ a, e.result = some a ∧ isFinal a = false) ∧
    L.finished (entriesOf e.id log) e
  /-- Those that have not begun will, in their order. -/
  order : (p.ready.filter fun task => task.what.isNone).map Ready.id ++ p.queued.map Ready.id
    = List.range' begun (count - begun)
  /-- Every workflow is in one place. -/
  all : (out ++ p.ids).Perm (List.range count)
  /-- No more are under way than may be. -/
  bounded : out.length + p.ready.length + p.waiting.length ≤ limit
  /-- As long as some have not been started, no fewer are. -/
  full : p.queued ≠ [] → out.length + p.ready.length + p.waiting.length = limit

/-- A pool has been **aborted** by a workflow that ended with a final result. -/
def Aborted (w₀ : World I σ) (count limit : Nat) (p : Pool I σ α) (log : List (Entry I)) : Prop :=
  ∃ before begun e, L.Kept isFinal w₀ count limit [e.id] before log begun ∧ L.last log e ∧
    (∃ a, e.result = some a ∧ isFinal a = true) ∧
    p = ({ before with ended := e :: before.ended }).drop

/-- How much a pool has still to do at most. -/
def weight (count : Nat) (p : Pool I σ α) (log : List (Entry I)) : Nat :=
  2 * ∑ i ∈ Finset.range count, L.left (entriesOf i log) + 2 * (p.ready.length + p.queued.length)
    + 3 * p.waiting.length

/-- A workflow that may have made more requests before stops in the same way. -/
theorem Stopped.mono {L : Ledger I σ α} {isFinal : α → Bool} {id now before before' : Nat}
    {log : List (Entry I)} {stop : Stop I α} (h : L.Stopped isFinal id now before log stop)
    (le : before ≤ before') : L.Stopped isFinal id now before' log stop := by
  cases h with
  | waits later going fewer => exact .waits later going (Nat.lt_of_lt_of_le fewer le)
  | finished open_yet finished => exact .finished open_yet finished
  | last final last => exact .last final last

/-- What a workflow does first is part of its turn. -/
theorem Turn.after {L : Ledger I σ α} {isFinal : α → Bool} {id begun : Nat} {w w₁ w' : World I σ}
    {stop : Stop I α} {log first more : List (Entry I)}
    (h : L.Turn isFinal id w₁ (log ++ first) w' stop more begun) (now : w₁.now = w.now)
    (record : w₁.record = w.record ++ first) (mine : ∀ e ∈ first, e.caller = id)
    (left_le : L.left (entriesOf id (log ++ first)) ≤ L.left (entriesOf id log)) :
    L.Turn isFinal id w log w' stop (first ++ more) begun where
  now := h.now.trans now
  record := by rw [h.record, record, List.append_assoc]
  mine := List.forall_mem_append.mpr ⟨mine, h.mine⟩
  book := by
    rw [← List.append_assoc]
    exact h.book
  left_le := by
    rw [← List.append_assoc]
    exact Nat.le_trans h.left_le left_le
  stopped := by
    rw [← List.append_assoc, ← now]
    exact h.stopped.mono left_le

namespace Aborted

variable {L env isFinal} {w₀ : World I σ} {count limit : Nat} {p : Pool I σ α} {log : List (Entry I)}

/-- A pool that has been aborted stands still. -/
theorem step_eq_none (h : L.Aborted isFinal w₀ count limit p log) : p.step env isFinal = none := by
  obtain ⟨_, _, _, _, _, _, rfl⟩ := h
  rfl

/-- Its record has grown. -/
theorem record (h : L.Aborted isFinal w₀ count limit p log) : p.world.record = w₀.record ++ log := by
  obtain ⟨_, _, _, kept, _, _, rfl⟩ := h
  exact kept.record

/-- It stays as it is. -/
theorem run_eq (h : L.Aborted isFinal w₀ count limit p log) (steps : Nat) :
    p.run env isFinal steps = p := by
  cases steps with
  | zero => rfl
  | succ steps => rw [Pool.run, h.step_eq_none]

end Aborted

namespace Kept

variable {L env isFinal} {w₀ : World I σ} {count limit begun : Nat} {out : List Nat}
  {p : Pool I σ α} {log more : List (Entry I)}

/-- No workflow is in two places. -/
theorem apart (h : L.Kept isFinal w₀ count limit out p log begun) : (out ++ p.ids).Nodup :=
  h.all.nodup_iff.mpr List.nodup_range

/-- Every number is that of a workflow. -/
theorem lt_count (h : L.Kept isFinal w₀ count limit out p log begun) {id : Nat}
    (mem : id ∈ out ++ p.ids) : id < count :=
  List.mem_range.mp (h.all.mem_iff.mp mem)

/-! ### Moves -/

/-- A workflow takes its turn. -/
theorem turn (sound : L.Sound env isFinal) (h : L.Kept isFinal w₀ count limit [] p log begun)
    {task : Ready I α} {rest : List (Ready I α)} (next : p.ready = task :: rest) :
    ∃ w q stop more,
      Pool.advance env task.id (task.what.elim p.world (p.world.note task.id)) p.keys task.workflow
        = (w, q, stop) ∧
      L.Turn isFinal task.id p.world log w stop more (begun + task.what.isNone.toNat) ∧
      L.Kept isFinal w₀ count limit [task.id] { p with ready := rest, world := w, keys := q }
        (log ++ more) (begun + task.what.isNone.toNat) := by
  have order := h.order
  rw [next] at order
  -- One that has not begun is the next to do so.
  have first : task.what = none → task.id = begun ∧
      (rest.filter fun task => task.what.isNone).map Ready.id ++ p.queued.map Ready.id
        = List.range' (begun + 1) (count - (begun + 1)) := by
    intro fresh
    rw [List.filter_cons_of_pos (by rw [fresh]; rfl), List.map_cons, List.cons_append] at order
    cases left : count - begun with
    | zero =>
      rw [left] at order
      exact nomatch order
    | succ n =>
      rw [left, List.range'_succ] at order
      obtain ⟨same, order⟩ := List.cons.inj order
      refine ⟨same, order.trans ?_⟩
      rw [← Nat.sub_sub, left]
      rfl
  obtain ⟨w, q, stop, more, advanced, turn⟩ := sound p.world p.keys log begun task h.book
    (h.ready task (next ▸ List.mem_cons_self)) fun fresh => (first fresh).1
  refine ⟨w, q, stop, more, advanced, turn, ?_⟩
  have apart : (task.id :: { p with ready := rest, world := w, keys := q }.ids).Nodup := by
    have apart := h.apart
    rw [List.nil_append, Pool.ids, next] at apart
    exact apart
  -- What the others have to show for themselves is as before.
  have others {id : Nat} (mem : id ∈ { p with ready := rest, world := w, keys := q }.ids) :
      entriesOf id (log ++ more) = entriesOf id log := by
    refine entriesOf_append_of_ne log ?_ turn.mine
    rintro rfl
    exact (List.nodup_cons.mp apart).1 mem
  refine ⟨?_, turn.book, fun other mem => ?_, fun e mem => ?_, fun other mem => ?_,
    fun e mem => ?_, ?_, ?_, ?_, fun some_queued => ?_⟩
  · rw [turn.record, h.record, List.append_assoc]
  · rw [others (List.mem_append_left _ (List.mem_map_of_mem mem))]
    exact h.ready other (next ▸ List.mem_cons_of_mem _ mem)
  · rw [others (List.mem_append_right _ (List.mem_append_left _ (List.mem_map_of_mem mem))), turn.now]
    exact h.waiting e mem
  · rw [others (List.mem_append_right _ (List.mem_append_right _ (List.mem_append_left _
      (List.mem_map_of_mem mem))))]
    exact h.queued other mem
  · rw [others (List.mem_append_right _ (List.mem_append_right _ (List.mem_append_right _
      (List.mem_map_of_mem mem))))]
    exact h.ended e mem
  · cases what : task.what with
    | none => exact (first what).2
    | some happening =>
      rw [List.filter_cons_of_neg (by rw [what]; simp)] at order
      exact order
  · have all := h.all
    rw [List.nil_append, Pool.ids, next] at all
    exact all
  · have bounded := h.bounded
    rw [next] at bounded
    simp only [List.length_cons, List.length_nil] at bounded ⊢
    omega
  · have full := h.full some_queued
    rw [next] at full
    simp only [List.length_cons, List.length_nil] at full ⊢
    omega

/-- A workflow that has taken its turn waits for an answer. -/
theorem putWaiting {id time : Nat} {what : Happening I} {next : Workflow I α}
    (h : L.Kept isFinal w₀ count limit [id] p log begun) (later : p.world.now < time)
    (going : L.going (entriesOf id log) ⟨id, some what, next⟩) :
    L.Kept isFinal w₀ count limit []
      { p with waiting := p.waiting ++ [(id, .until time (some what) next)] } log begun where
  record := h.record
  book := h.book
  ready := h.ready
  waiting := List.forall_mem_append.mpr ⟨h.waiting,
    List.forall_mem_singleton.mpr ⟨time, what, next, rfl, later, going⟩⟩
  queued := h.queued
  ended := h.ended
  order := h.order
  all := by
    refine (List.perm_iff_count.mpr fun i => ?_).trans h.all
    simp only [Pool.ids, List.map_append, List.count_append, List.map_cons, List.map_nil,
      List.count_cons, List.count_nil]
    omega
  bounded := by
    have bounded := h.bounded
    simp only [List.length_append, List.length_cons, List.length_nil] at bounded ⊢
    omega
  full some_queued := by
    have full := h.full some_queued
    simp only [List.length_append, List.length_cons, List.length_nil] at full ⊢
    omega

/-- A workflow that has taken its turn has ended, and the next is started. -/
theorem putEnded {e : Ended α} (h : L.Kept isFinal w₀ count limit [e.id] p log begun)
    (finished : (∃ a, e.result = some a ∧ isFinal a = false) ∧ L.finished (entriesOf e.id log) e) :
    L.Kept isFinal w₀ count limit [] ({ p with ended := e :: p.ended }).startNext log begun := by
  have bounded := h.bounded
  have ended : ∀ e' ∈ e :: p.ended, (∃ a, e'.result = some a ∧ isFinal a = false) ∧
      L.finished (entriesOf e'.id log) e' := List.forall_mem_cons.mpr ⟨finished, h.ended⟩
  by_cases queued : p.queued = []
  · have none : ({ p with ended := e :: p.ended }).startNext = { p with ended := e :: p.ended } := by
      simp only [Pool.startNext, queued]
    rw [none]
    refine ⟨h.record, h.book, h.ready, h.waiting, h.queued, ended, h.order, ?_, ?_,
      fun some_queued => absurd queued some_queued⟩
    · refine (List.perm_iff_count.mpr fun i => ?_).trans h.all
      simp only [Pool.ids, List.map_cons, List.count_append, List.count_cons, List.count_nil]
      omega
    · simp only [List.length_cons, List.length_nil] at bounded ⊢
      omega
  · have full := h.full queued
    obtain ⟨next, rest, queued⟩ := List.exists_cons_of_ne_nil queued
    have starts : ({ p with ended := e :: p.ended }).startNext
        = { p with ready := p.ready ++ [next], queued := rest, ended := e :: p.ended } := by
      simp only [Pool.startNext, queued]
    have waits := h.queued
    rw [queued] at waits
    obtain ⟨⟨fresh, going⟩, waits⟩ := List.forall_mem_cons.mp waits
    rw [starts]
    refine ⟨h.record, h.book, List.forall_mem_append.mpr ⟨h.ready, List.forall_mem_singleton.mpr going⟩,
      h.waiting, waits, ended, ?_, ?_, ?_, fun _ => ?_⟩
    · have order := h.order
      rw [queued] at order
      have alone : [next].filter (fun task => task.what.isNone) = [next] :=
        List.filter_cons_of_pos (by rw [fresh]; rfl)
      rw [List.filter_append, List.map_append, List.append_assoc, alone]
      exact order
    · refine (List.perm_iff_count.mpr fun i => ?_).trans h.all
      simp only [Pool.ids, queued, List.map_append, List.map_cons, List.map_nil, List.count_append,
        List.count_cons, List.count_nil]
      omega
    · simp only [List.length_append, List.length_cons, List.length_nil] at bounded ⊢
      omega
    · simp only [List.length_append, List.length_cons, List.length_nil] at full ⊢
      omega

/-- An answer is due at its time. -/
theorem due_eq_some_iff {time time' id : Nat} {what : Happening I} {next : Workflow I α}
    {task : Ready I α} : Pool.due time id (.until time' (some what) next) = some task ↔
      time' = time ∧ task = ⟨id, some what, next⟩ := by
  rw [Pool.due, Pool.timeOf]
  by_cases now : time' = time
  · simp [now, eq_comm]
  · simp [now]

/-- Time passes up to the next answer when none is ready. -/
theorem pass (h : L.Kept isFinal w₀ count limit [] p log begun) (idle : p.ready = []) {time : Nat}
    (next : p.nextTime = some time) : L.Kept isFinal w₀ count limit [] (p.pass time) log begun := by
  have woken : ∀ e ∈ p.waiting, ∀ task, Pool.due time e.1 e.2 = some task →
      task.id = e.1 ∧ task.what.isNone = false ∧ L.going (entriesOf task.id log) task := by
    intro e mem task due
    obtain ⟨t, what, next, waits, _, going⟩ := h.waiting e mem
    rw [waits] at due
    obtain ⟨_, rfl⟩ := due_eq_some_iff.mp due
    exact ⟨rfl, rfl, going⟩
  -- Waking only moves workflows.
  have moved : ((p.waiting.filterMap fun e => Pool.due time e.1 e.2).map Ready.id ++
      (p.waiting.filter fun e => (Pool.due time e.1 e.2).isNone).map Prod.fst).Perm
        (p.waiting.map Prod.fst) := by
    refine List.perm_iff_count.mpr fun i => ?_
    rw [List.count_append]
    exact Pool.count_woken i (Pool.due time) p.waiting fun e mem task due => (woken e mem task due).1
  have length := moved.length_eq
  simp only [List.length_append, List.length_map] at length
  refine ⟨h.record, h.book, fun task mem => ?_, fun e mem => ?_, h.queued, h.ended, ?_, ?_, ?_,
    fun some_queued => ?_⟩
  · rw [Pool.pass, Pool.wake, idle, List.nil_append] at mem
    obtain ⟨e, here, due⟩ := List.mem_filterMap.mp mem
    exact (woken e here task due).2.2
  · obtain ⟨here, asleep⟩ := List.mem_filter.mp mem
    have asleep : (Pool.due time e.1 e.2).isNone = true := asleep
    obtain ⟨t, what, next, waits, _, going⟩ := h.waiting e here
    refine ⟨t, what, next, waits, ?_, going⟩
    -- The time that is let pass is the least that any workflow waits for.
    have at_t : Pool.timeOf e.2 = some t := by
      rw [waits]
      rfl
    have le : time ≤ t :=
      (List.min?_eq_some_iff.mp ‹p.nextTime = some time›).2 t
        (List.mem_filterMap.mpr ⟨e, here, at_t⟩)
    refine Nat.lt_of_le_of_ne le fun same : time = t => ?_
    rw [waits, due_eq_some_iff.mpr ⟨same.symm, rfl⟩] at asleep
    exact absurd asleep Bool.false_ne_true
  · have begun_all : ((p.pass time).ready.filter fun task => task.what.isNone) = [] := by
      refine List.filter_eq_nil_iff.mpr fun task mem => ?_
      rw [Pool.pass, Pool.wake, idle, List.nil_append] at mem
      obtain ⟨e, here, due⟩ := List.mem_filterMap.mp mem
      rw [(woken e here task due).2.1]
      exact Bool.false_ne_true
    have order := h.order
    rw [idle] at order
    rw [begun_all]
    exact order
  · refine .trans ?_ h.all
    simp only [Pool.ids, Pool.pass, Pool.wake, idle, List.nil_append, List.map_nil]
    rw [← List.append_assoc]
    exact moved.append_right _
  · have bounded := h.bounded
    simp only [Pool.pass, Pool.wake, idle, List.nil_append, List.length_nil] at bounded ⊢
    omega
  · have full := h.full some_queued
    simp only [Pool.pass, Pool.wake, idle, List.nil_append, List.length_nil] at full ⊢
    omega

/-! ### Steps -/

/-- Every workflow is counted once. -/
theorem length_eq (h : L.Kept isFinal w₀ count limit out p log begun) :
    out.length + (p.ready.length + (p.waiting.length + (p.queued.length + p.ended.length)))
      = count := by
  have length := h.all.length_eq
  simpa only [Pool.ids, List.length_append, List.length_map, List.length_range] using length

/-- The requests that all workflows may still make are those of the others and of the one whose turn
it was. -/
theorem sum_left_of_mine {id : Nat} (within : id < count) (log : List (Entry I))
    (mine : ∀ e ∈ more, e.caller = id) :
    (∑ i ∈ Finset.range count, L.left (entriesOf i (log ++ more))) + L.left (entriesOf id log)
      = (∑ i ∈ Finset.range count, L.left (entriesOf i log)) + L.left (entriesOf id (log ++ more)) := by
  have mem : id ∈ Finset.range count := Finset.mem_range.mpr within
  have others : ∑ i ∈ (Finset.range count).erase id, L.left (entriesOf i (log ++ more))
      = ∑ i ∈ (Finset.range count).erase id, L.left (entriesOf i log) :=
    Finset.sum_congr rfl fun i other => by
      rw [entriesOf_append_of_ne log (Finset.ne_of_mem_erase other) mine]
  rw [← Finset.add_sum_erase _ _ mem, ← Finset.add_sum_erase _ _ mem, others]
  omega

/-- The passing of time leaves less to do. -/
theorem weight_pass (h : L.Kept isFinal w₀ count limit [] p log begun) (idle : p.ready = [])
    {time : Nat} (next : p.nextTime = some time) :
    L.weight count (p.pass time) log < L.weight count p log := by
  have before := h.length_eq
  have after := (h.pass idle next).length_eq
  -- Some workflow goes on at that time.
  have fewer : (p.pass time).waiting.length < p.waiting.length := by
    obtain ⟨e, mem, at_time⟩ := List.mem_filterMap.mp (List.min?_eq_some_iff.mp next).1
    refine List.length_filter_lt_length_iff_exists.mpr ⟨e, mem, fun asleep => ?_⟩
    have asleep : (Pool.due time e.1 e.2).isNone = true := asleep
    have at_time : Pool.timeOf e.2 = some time := at_time
    obtain ⟨t, what, next, waits, _⟩ := h.waiting e mem
    rw [waits] at at_time asleep
    rw [due_eq_some_iff.mpr ⟨Option.some.inj at_time, rfl⟩] at asleep
    exact absurd asleep Bool.false_ne_true
  have queued : (p.pass time).queued = p.queued := rfl
  have ended : (p.pass time).ended = p.ended := rfl
  rw [queued, ended] at after
  rw [idle] at before
  rw [weight, weight, queued, idle]
  simp only [List.length_nil] at before after ⊢
  omega

/-- **Every step of a pool** keeps a sound ledger and leaves less to do, or aborts the pool. -/
theorem step (sound : L.Sound env isFinal) (h : L.Kept isFinal w₀ count limit [] p log begun)
    {p' : Pool I σ α} (next : p.step env isFinal = some p') :
    ∃ more, (∃ begun', L.Kept isFinal w₀ count limit [] p' (log ++ more) begun' ∧
        L.weight count p' (log ++ more) < L.weight count p log) ∨
      L.Aborted isFinal w₀ count limit p' (log ++ more) := by
  rw [Pool.step] at next
  cases ready : p.ready with
  | nil =>
    rw [ready] at next
    obtain ⟨time, at_time, rfl⟩ := Option.map_eq_some_iff.mp next
    refine ⟨[], .inl ⟨begun, ?_⟩⟩
    rw [List.append_nil]
    exact ⟨h.pass ready at_time, h.weight_pass ready at_time⟩
  | cons task rest =>
    rw [ready] at next
    obtain rfl := Option.some.inj next
    obtain ⟨w, q, stop, more, advanced, turn, taken⟩ := h.turn sound ready
    have left := sum_left_of_mine (L := L) (taken.lt_count List.mem_cons_self) log turn.mine
    have left_le := turn.left_le
    have idle : ∀ e ∈ p.waiting, ∃ time what next, e.2 = .until time what next := fun e mem =>
      let ⟨time, what, next, waits, _⟩ := h.waiting e mem
      ⟨time, some what, next, waits⟩
    refine ⟨more, ?_⟩
    cases turn.stopped with
    | waits later going fewer =>
      have kept := taken.putWaiting (Nat.lt_of_le_of_lt (Nat.le_of_eq turn.now) later) going
      rw [Pool.runNext_waits (p := { p with ready := rest }) idle advanced]
      refine .inl ⟨_, kept, ?_⟩
      rw [weight, weight, ready]
      simp only [List.length_append, List.length_cons, List.length_nil]
      omega
    | finished open_yet finished =>
      have kept := taken.putEnded (e := ⟨task.id, p.world.now, _⟩) ⟨⟨_, rfl, open_yet⟩, finished⟩
      rw [Pool.runNext_ended (p := { p with ready := rest }) idle open_yet advanced, turn.now]
      refine .inl ⟨_, kept, ?_⟩
      rw [weight, weight, Pool.length_startNext, Pool.waiting_startNext, ready]
      simp only [List.length_cons]
      omega
    | last final last =>
      rw [Pool.runNext_final (p := { p with ready := rest }) final advanced]
      refine .inr ⟨_, _, ⟨task.id, p.world.now, _⟩, taken, last, ⟨_, rfl, final⟩, ?_⟩
      rw [turn.now]

/-! ### Runs -/

/-- A pool stands still when nobody is ready or waits. -/
theorem step_eq_none_iff (h : L.Kept isFinal w₀ count limit out p log begun) :
    p.step env isFinal = none ↔ p.ready = [] ∧ p.waiting = [] := by
  rw [Pool.step]
  cases ready : p.ready with
  | cons task rest => simp
  | nil =>
    rw [Option.map_eq_none_iff, Pool.nextTime, List.min?_eq_none_iff, List.filterMap_eq_nil_iff]
    simp only [true_and]
    constructor
    · intro none
      refine List.eq_nil_iff_forall_not_mem.mpr fun e mem => ?_
      obtain ⟨time, what, next, waits, _⟩ := h.waiting e mem
      have never : Pool.timeOf e.2 = .none := none e mem
      rw [waits] at never
      exact nomatch never
    · intro nobody e mem
      rw [nobody] at mem
      exact absurd mem List.not_mem_nil

/-- **A whole run** keeps a sound ledger or aborts the pool, and stands still after enough steps. -/
theorem run (sound : L.Sound env isFinal) (h : L.Kept isFinal w₀ count limit [] p log begun)
    (steps : Nat) :
    ∃ more, ((∃ begun', L.Kept isFinal w₀ count limit [] (p.run env isFinal steps) (log ++ more)
          begun') ∨
        L.Aborted isFinal w₀ count limit (p.run env isFinal steps) (log ++ more)) ∧
      (L.weight count p log ≤ steps → (p.run env isFinal steps).step env isFinal = none) := by
  -- On the steps, for all pools that keep the ledger.
  induction steps generalizing p log begun with
  | zero =>
    refine ⟨[], .inl ⟨begun, by rw [List.append_nil]; exact h⟩, fun light => ?_⟩
    rw [weight] at light
    exact h.step_eq_none_iff.mpr
      ⟨List.eq_nil_of_length_eq_zero (by omega), List.eq_nil_of_length_eq_zero (by omega)⟩
  | succ steps ih =>
    rw [Pool.run]
    cases next : p.step env isFinal with
    | none => exact ⟨[], .inl ⟨begun, by rw [List.append_nil]; exact h⟩, fun _ => next⟩
    | some p' =>
      obtain ⟨more, ⟨begun', kept, lighter⟩ | aborted⟩ := h.step sound next
      · obtain ⟨rest, state, still⟩ := ih kept
        rw [List.append_assoc] at state
        exact ⟨more ++ rest, state, fun light => still (by omega)⟩
      · refine ⟨more, ?_⟩
        simp only
        rw [aborted.run_eq]
        exact ⟨.inr aborted, fun _ => aborted.step_eq_none⟩

/-- Where a pool stands still, all of its workflows have ended. -/
theorem ended_perm (h : L.Kept isFinal w₀ count limit [] p log begun) (pos : 0 < limit)
    (still : p.step env isFinal = none) : (p.ended.map Ended.id).Perm (List.range count) := by
  obtain ⟨ready, waiting⟩ := h.step_eq_none_iff.mp still
  have queued : p.queued = [] := by
    by_contra some_queued
    have full := h.full some_queued
    rw [ready, waiting] at full
    exact Nat.ne_of_lt pos full
  have all := h.all
  rw [Pool.ids, ready, waiting, queued] at all
  exact all

end Kept

/-- **A pool that starts** keeps a ledger for which its workflows can go on without any entries. -/
theorem kept_start (w : World I σ) (limit : Nat) (ps : List (Workflow I α)) (book : L.book [] w.state 0)
    (going : ∀ i p, ps[i]? = some p → L.going [] ⟨i, none, p⟩) :
    L.Kept isFinal w ps.length limit [] (.start w limit ps) [] 0 := by
  have task {task : Ready I α} (mem : task ∈ ps.zipIdx.map fun entry => ⟨entry.2, none, entry.1⟩) :
      task.what = none ∧ L.going [] task := by
    obtain ⟨⟨p, id⟩, here, rfl⟩ := List.mem_map.mp mem
    exact ⟨rfl, going id p (List.mem_zipIdx_iff_getElem?.mp here)⟩
  have numbers : (ps.zipIdx.map fun entry => (⟨entry.2, none, entry.1⟩ : Ready I α)).map Ready.id
      = List.range ps.length := by
    rw [List.map_map, List.range_eq_range', ← List.zipIdx_map_snd]
    rfl
  have fresh : ((Pool.start w limit ps : Pool I σ α).ready.filter fun task => task.what.isNone)
      = (Pool.start w limit ps : Pool I σ α).ready :=
    List.filter_eq_self.mpr fun t mem => by rw [(task (List.mem_of_mem_take mem)).1]; rfl
  refine ⟨(List.append_nil _).symm, book, fun t mem => (task (List.mem_of_mem_take mem)).2,
    List.forall_mem_nil _, fun t mem => task (List.mem_of_mem_drop mem), List.forall_mem_nil _, ?_, ?_,
    ?_, fun some_queued => ?_⟩
  · rw [fresh, ← List.map_append]
    show (List.take limit _ ++ List.drop limit _).map Ready.id = _
    rw [List.take_append_drop, numbers, List.range_eq_range']
    rfl
  · simp only [Pool.ids, Pool.start, List.map_nil, List.nil_append, List.append_nil]
    rw [← List.map_append, List.take_append_drop, numbers]
  · show 0 + (List.take limit _).length + 0 ≤ limit
    rw [Nat.zero_add]
    exact List.length_take_le _ _
  · have beyond : limit < (ps.zipIdx.map fun entry =>
        (⟨entry.2, none, entry.1⟩ : Ready I α)).length :=
      Nat.lt_of_not_le fun le => some_queued (List.drop_eq_nil_iff.mpr le)
    show 0 + (List.take limit _).length + 0 = limit
    rw [Nat.zero_add, List.length_take]
    exact Nat.min_eq_left (Nat.le_of_lt beyond)

end Ledger

end CertifiedCalls
