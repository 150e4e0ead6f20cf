import CertifiedCalls.Proofs.Workflow.Stopping

/-! # Explained pools
A pool is **explained** by a list of acts that take the world to where it is when each of its workflows
has arrived, by its own acts, at what the pool says is left of it. Here are the moves of a single
workflow between the places of a pool that keep it explained. -/

namespace CertifiedCalls

variable {I : Interface} {σ α : Type}

/-- A workflow of a list has **arrived**, by its acts, at what is left of it. -/
def Arrived (ps : List (Workflow I α)) (id : Nat) (acts : List (Act I)) (q : Workflow I α) (t : Nat) :
    Prop :=
  ∃ p since, ps[id]? = some p ∧ Course id p since acts q t

/-- A workflow that has arrived somewhere goes on from there. -/
theorem Arrived.trans {ps : List (Workflow I α)} {id t u : Nat} {as bs : List (Act I)}
    {q r : Workflow I α} (h : Arrived ps id as q t) (rest : Course id q t bs r u) :
    Arrived ps id (as ++ bs) r u := by
  obtain ⟨p, since, found, course⟩ := h
  exact ⟨p, since, found, course.trans rest⟩

/-- What follows on a claim that is made at its limit also follows on one that was made before and has
waited up to it. -/
theorem Course.of_limit {id since t u : Nat} {next : Claim → Workflow I α} {acts : List (Act I)}
    {q : Workflow I α} (h : Course id (.claim (some t) next) t acts q u) (past : since ≤ t)
    (other : u = t → ∀ next', q ≠ .claim (some t) next') :
    Course id (.claim (some t) next) since acts q u := by
  obtain ⟨gap, rfl⟩ := Nat.exists_eq_add_of_le past
  cases h with
  | here => exact absurd rfl (other rfl next)
  | claim outcome wait inTime late rest =>
    rw [Nat.add_assoc] at late rest ⊢
    refine .claim outcome (gap + wait) (fun ne => ?_) (fun e => ⟨rfl, ?_⟩) rest
    · have inTime := inTime ne
      simp only [isInTime, Bool.or_eq_true, beq_iff_eq, Option.all_some, decide_eq_true_eq] at inTime ⊢
      omega
    · have late := (late e).2
      simp only [lapseTime, Option.getD_some, Nat.max_self] at late ⊢
      omega

/-- A workflow of a list **stands**, by its acts, where it goes on: it has arrived there, or it has made
a claim and waited for the key up to the limit. -/
inductive Stands (ps : List (Workflow I α)) (id t : Nat) (acts : List (Act I)) : Workflow I α → Prop
  /-- It has arrived there. -/
  | arrived {q : Workflow I α} (h : Arrived ps id acts q t) : Stands ps id t acts q
  /-- It has waited with a claim. -/
  | waited {next : Claim → Workflow I α} {since : Nat} (past : since ≤ t)
    (h : Arrived ps id acts (.claim (some t) next) since) : Stands ps id t acts (.claim (some t) next)

/-- A workflow that stands somewhere goes on from there, and leaves its claim. -/
theorem Stands.trans {ps : List (Workflow I α)} {id t u : Nat} {as bs : List (Act I)}
    {q r : Workflow I α} (h : Stands ps id t as q) (rest : Course id q t bs r u)
    (other : u = t → ∀ next, r ≠ .claim (some t) next) : Arrived ps id (as ++ bs) r u := by
  cases h with
  | arrived h => exact h.trans rest
  | waited past h => exact h.trans (rest.of_limit past other)

/-- It has arrived there by then. -/
theorem Stands.exists_arrived {ps : List (Workflow I α)} {id t : Nat} {acts : List (Act I)}
    {q : Workflow I α} (h : Stands ps id t acts q) : ∃ since, Arrived ps id acts q since := by
  cases h with
  | arrived h => exact ⟨_, h⟩
  | waited _ h => exact ⟨_, h⟩

namespace Pool

variable {env : Environment I σ} {ps : List (Workflow I α)}

/-- A workflow is ready by its acts to go on where it stands. -/
structure ReadyAt (env : Environment I σ) (ps : List (Workflow I α)) (now : Nat)
    (acts : List (Act I)) (task : Ready I α) : Prop where
  /-- What happens to it first is the environment's. -/
  served : ∀ h, task.what = some h → h.Served env
  /-- With that it stands where it goes on. -/
  stands : Stands ps task.id now (acts ++ foreseen task.id now task.what) task.workflow

/-- A workflow waits by its acts to go on later where it will have arrived. -/
def WaitsAt (env : Environment I σ) (ps : List (Workflow I α)) (now id : Nat)
    (acts : List (Act I)) : Waiting I α → Prop
  | .until time what next =>
    now < time ∧ (∀ h, what = some h → h.Served env) ∧
      Arrived ps id (acts ++ foreseen id time what) next time
  | .inLine limit next =>
    (∀ l, limit = some l → now < l) ∧
      ∃ since, since ≤ now ∧ Arrived ps id acts (.claim limit next) since

/-- The numbers of all workflows of a pool. -/
def ids (p : Pool I σ α) : List Nat :=
  p.ready.map Ready.id ++ (p.waiting.map Prod.fst ++ (p.queued.map Ready.id ++ p.ended.map Ended.id))

/-- A pool is **explained** by acts that take the world to where it is and each of the workflows to
what the pool says is left of it. -/
structure Explained (env : Environment I σ) (ps : List (Workflow I α)) (w₀ : World I σ)
    (p : Pool I σ α) (trace : List (Act I)) : Prop where
  /-- The acts take the world to where it is. -/
  passage : Passage env w₀ p.world trace
  /-- Those that are ready have arrived. -/
  ready : ∀ task ∈ p.ready, ReadyAt env ps p.world.now (own task.id trace) task
  /-- Those that wait will have arrived. -/
  waiting : ∀ entry ∈ p.waiting, WaitsAt env ps p.world.now entry.1 (own entry.1 trace) entry.2
  /-- Those that have not been started have done nothing. -/
  queued : ∀ task ∈ p.queued,
    ps[task.id]? = some task.workflow ∧ task.what = none ∧ own task.id trace = []
  /-- Those that have ended have arrived at their ends. -/
  ended : ∀ e ∈ p.ended, Arrived ps e.id (own e.id trace) (e.result.elim .unfinished .done) e.time
  /-- Whatever has been done is the beginning of a course. -/
  begun : ∀ id, own id trace ≠ [] → ∃ more q t, Arrived ps id (own id trace ++ more) q t
  /-- No workflow is in two places. -/
  apart : p.ids.Nodup

/-- A workflow that has stopped and waits will have arrived. -/
theorem StopsAt.waitsAt {id now : Nat} {q : Workflow I α} {as bs : List (Act I)} {w : Waiting I α}
    (h : StopsAt env id q now bs (.waits w)) (stands : Stands ps id now as q) :
    WaitsAt env ps now id (as ++ bs) w := by
  match w, h with
  | .until time what next, ⟨later, served, course⟩ =>
    refine ⟨later, served, ?_⟩
    rw [List.append_assoc]
    exact stands.trans course fun same => absurd same (Nat.ne_of_gt later)
  | .inLine limit next, ⟨early, course⟩ =>
    refine ⟨early, now, Nat.le_refl _, stands.trans course fun _ next' same => ?_⟩
    obtain ⟨rfl, _⟩ := Workflow.claim.inj same
    exact absurd (early now rfl) (Nat.lt_irrefl now)

/-- A workflow that has ended has arrived at its end. -/
theorem StopsAt.arrived {id now : Nat} {q : Workflow I α} {as bs : List (Act I)} {result : Option α}
    (h : StopsAt env id q now bs (.ended result)) (stands : Stands ps id now as q) :
    Arrived ps id (as ++ bs) (result.elim .unfinished .done) now :=
  stands.trans h fun _ _ same => by cases result <;> cases same

/-- The beginning of a course ends somewhere. -/
theorem StopsAt.begun {id now : Nat} {q : Workflow I α} {as bs : List (Act I)} {stop : Stop I α}
    (h : StopsAt env id q now bs stop) (stands : Stands ps id now as q) :
    ∃ more r t, Arrived ps id (as ++ bs ++ more) r t := by
  match stop, h with
  | .ended result, h =>
    exact ⟨[], _, _, by rw [List.append_nil]; exact h.arrived stands⟩
  | .waits (.until time what next), h =>
    exact ⟨_, _, _, (h.waitsAt stands).2.2⟩
  | .waits (.inLine limit next), h =>
    obtain ⟨_, _, _, arrived⟩ := h.waitsAt stands
    exact ⟨[], _, _, by rw [List.append_nil]; exact arrived⟩

/-! ### Moves -/

namespace Explained

variable {w₀ : World I σ} {p : Pool I σ α} {trace : List (Act I)}

/-- No workflow has ended twice. -/
theorem ended_apart (h : Explained env ps w₀ p trace) : (p.ended.map Ended.id).Nodup := by
  have apart := h.apart
  rw [ids, List.nodup_append, List.nodup_append, List.nodup_append] at apart
  exact apart.2.1.2.1.2.1

/-- Whatever a workflow of the pool has done is the beginning of a course of one of its workflows. -/
theorem exists_course (h : Explained env ps w₀ p trace) {id : Nat} (some_done : own id trace ≠ []) :
    ∃ q ∈ ps, ∃ since more r t, Course id q since (own id trace ++ more) r t := by
  obtain ⟨more, r, t, q, since, found, course⟩ := h.begun id some_done
  exact ⟨q, List.mem_of_getElem? found, since, more, r, t, course⟩

/-- Acts of other workflows change nothing for those of the pool. -/
theorem frame (h : Explained env ps w₀ p trace) {w : World I σ} {more : List (Act I)} (q : KeyQueue)
    (passage : Passage env p.world w more) (same : w.now = p.world.now)
    (others : ∀ a ∈ more, a.caller ∉ p.ids)
    (begun : ∀ id, own id more ≠ [] → ∃ rest q t, Arrived ps id (own id (trace ++ more) ++ rest) q t) :
    Explained env ps w₀ { p with world := w, keys := q } (trace ++ more) := by
  -- The acts of the workflows that are still in the pool are the same as before.
  have apart {id : Nat} (mem : id ∈ p.ids) : own id (trace ++ more) = own id trace := by
    have none : own id more = [] := by
      refine List.filter_eq_nil_iff.mpr fun a here e => others a here ?_
      rw [of_decide_eq_true e]
      exact mem
    rw [own_append, none, List.append_nil]
  refine ⟨h.passage.trans passage, ?_, ?_, ?_, ?_, ?_, h.apart⟩
  · intro task mem
    rw [apart (List.mem_append_left _ (List.mem_map_of_mem mem)), same]
    exact h.ready task mem
  · intro entry mem
    rw [apart (List.mem_append_right _ (List.mem_append_left _ (List.mem_map_of_mem mem))), same]
    exact h.waiting entry mem
  · intro task mem
    rw [apart (List.mem_append_right _ (List.mem_append_right _
      (List.mem_append_left _ (List.mem_map_of_mem mem))))]
    exact h.queued task mem
  · intro e mem
    rw [apart (List.mem_append_right _ (List.mem_append_right _
      (List.mem_append_right _ (List.mem_map_of_mem mem))))]
    exact h.ended e mem
  · intro id some_done
    by_cases mine : own id more = []
    · rw [own_append, mine, List.append_nil] at some_done ⊢
      exact h.begun id some_done
    · exact begun id mine

/-- One more workflow waits. -/
theorem putWaiting (h : Explained env ps w₀ p trace) {id : Nat} {w : Waiting I α} (fresh : id ∉ p.ids)
    (waits : WaitsAt env ps p.world.now id (own id trace) w) :
    Explained env ps w₀ { p with waiting := p.waiting ++ [(id, w)] } trace where
  passage := h.passage
  ready := h.ready
  waiting := List.forall_mem_append.mpr ⟨h.waiting, List.forall_mem_singleton.mpr waits⟩
  queued := h.queued
  ended := h.ended
  begun := h.begun
  apart := by
    refine (List.perm_iff_count.mpr fun i => ?_).nodup_iff.mpr (List.nodup_cons.mpr ⟨fresh, h.apart⟩)
    simp only [ids, List.map_append, List.count_append, List.map_cons, List.map_nil,
      List.count_cons, List.count_nil]
    omega

/-- One more workflow has ended. -/
theorem putEnded (h : Explained env ps w₀ p trace) {e : Ended α} (fresh : e.id ∉ p.ids)
    (arrived : Arrived ps e.id (own e.id trace) (e.result.elim .unfinished .done) e.time) :
    Explained env ps w₀ { p with ended := e :: p.ended } trace where
  passage := h.passage
  ready := h.ready
  waiting := h.waiting
  queued := h.queued
  ended := List.forall_mem_cons.mpr ⟨arrived, h.ended⟩
  begun := h.begun
  apart := by
    refine (List.perm_iff_count.mpr fun i => ?_).nodup_iff.mpr (List.nodup_cons.mpr ⟨fresh, h.apart⟩)
    simp only [ids, List.count_append, List.map_cons, List.count_cons]
    omega

/-- The workflow that is taken to run is in no other place. -/
theorem pop (h : Explained env ps w₀ p trace) {task : Ready I α} {rest : List (Ready I α)}
    (next : p.ready = task :: rest) :
    Explained env ps w₀ { p with ready := rest } trace ∧ task.id ∉ ({ p with ready := rest }).ids := by
  have apart := h.apart
  rw [ids, next, List.map_cons, List.cons_append, List.nodup_cons] at apart
  refine ⟨⟨h.passage, fun task mem => ?_, h.waiting, h.queued, h.ended, h.begun, apart.2⟩, apart.1⟩
  exact h.ready task (next ▸ List.mem_cons_of_mem _ mem)

/-- Starting the next workflow explains nothing new. -/
theorem startNext (h : Explained env ps w₀ p trace) : Explained env ps w₀ p.startNext trace := by
  rw [Pool.startNext]
  cases left : p.queued with
  | nil => exact h
  | cons first rest =>
    have queued := h.queued
    rw [left] at queued
    obtain ⟨found, nothing, idle⟩ := queued first List.mem_cons_self
    refine ⟨h.passage, List.forall_mem_append.mpr ⟨h.ready, List.forall_mem_singleton.mpr ?_⟩,
      h.waiting, fun task mem => queued task (List.mem_cons_of_mem _ mem), h.ended, h.begun, ?_⟩
    -- A workflow that has done nothing has arrived at its own beginning.
    · refine ⟨fun what e => by simp [nothing] at e, .arrived ⟨first.workflow, p.world.now, found, ?_⟩⟩
      rw [idle, nothing]
      exact .here _ _
    · refine (List.perm_iff_count.mpr fun i => ?_).nodup_iff.mpr h.apart
      simp only [ids, left, List.map_append, List.count_append, List.map_cons, List.map_nil,
        List.count_cons, List.count_nil]
      omega

/-- In which order the workflows are that are ready explains nothing. -/
theorem reorder (h : Explained env ps w₀ p trace) {order : List (Ready I α)}
    (perm : p.ready.Perm order) : Explained env ps w₀ { p with ready := order } trace where
  passage := h.passage
  ready task mem := h.ready task (perm.mem_iff.mpr mem)
  waiting := h.waiting
  queued := h.queued
  ended := h.ended
  begun := h.begun
  apart := ((perm.map Ready.id).append_right _).nodup_iff.mp h.apart

/-- Dropping the workflows that have not ended explains nothing new. -/
theorem drop (h : Explained env ps w₀ p trace) : Explained env ps w₀ p.drop trace where
  passage := h.passage
  ready _ mem := absurd mem List.not_mem_nil
  waiting _ mem := absurd mem List.not_mem_nil
  queued _ mem := absurd mem List.not_mem_nil
  ended := h.ended
  begun := h.begun
  apart := h.ended_apart

end Explained

end Pool

end CertifiedCalls
