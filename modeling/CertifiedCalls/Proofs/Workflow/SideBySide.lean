import CertifiedCalls.Proofs.Workflow.Waking

/-! # Courses side by side
Workflows that run side by side in a pool each take one of their courses, and the pool takes the
world through the acts of all of them in the order in which they are done. Each step of a pool keeps
it explained by more acts (`Explained.step`), and so is whatever a pool reaches by its steps
(`Explained.reaches`), such as what a run of it leads to (`explained_run`). -/

namespace CertifiedCalls

variable {I : Interface} {σ α : Type}

namespace Pool

variable {env : Environment I σ} {ps : List (Workflow I α)}

namespace Explained

variable {w₀ : World I σ} {p : Pool I σ α} {trace : List (Act I)}

/-- The pool after the workflow that is taken to run has stopped. -/
theorem ran (h : Explained env ps w₀ p trace) {task : Ready I α} {rest : List (Ready I α)}
    (next : p.ready = task :: rest) {w : World I σ} {q : KeyQueue} {stop : Stop I α}
    (stops : advance env task.id (task.what.elim p.world (p.world.note task.id)) p.keys task.workflow
      = (w, q, stop)) :
    ∃ more, w.now = p.world.now ∧ Passage env p.world w more ∧
      task.id ∉ ({ p with ready := rest, world := w, keys := q }).ids ∧
      Explained env ps w₀ { p with ready := rest, world := w, keys := q } (trace ++ more) ∧
      (∀ waiting, stop = .waits waiting →
        WaitsAt env ps w.now task.id (own task.id (trace ++ more)) waiting) ∧
      ∀ result, stop = .ended result →
        Arrived ps task.id (own task.id (trace ++ more)) (result.elim .unfinished .done) w.now := by
  obtain ⟨served, stands⟩ := h.ready task (next ▸ List.mem_cons_self)
  obtain ⟨popped, fresh⟩ := h.pop next
  -- What was foreseen for the workflow happens to it first.
  have noted : Passage env p.world (task.what.elim p.world (p.world.note task.id))
        (foreseen task.id p.world.now task.what) ∧
      (task.what.elim p.world (p.world.note task.id)).now = p.world.now := by
    cases what : task.what with
    | none => exact ⟨.refl env _, rfl⟩
    | some happening => exact ⟨.note env _ _ _ (served happening what), rfl⟩
  obtain ⟨acts, passage, same, mine, stopped⟩ := advance_course env task.id
    (task.what.elim p.world (p.world.note task.id)) p.keys task.workflow
  rw [stops] at passage same stopped
  rw [noted.2] at same stopped
  have whole := noted.1.trans passage
  have callers : ∀ a ∈ foreseen task.id p.world.now task.what ++ acts, a.caller = task.id :=
    List.forall_mem_append.mpr ⟨fun a mem => caller_of_mem_foreseen mem, mine⟩
  -- All that is added is done by the workflow that ran.
  have own_all : own task.id (trace ++ (foreseen task.id p.world.now task.what ++ acts))
      = own task.id trace ++ foreseen task.id p.world.now task.what ++ acts := by
    rw [own_append, own_of_all callers, List.append_assoc]
  refine ⟨_, same, whole, fresh, ?_, ?_, ?_⟩
  · refine popped.frame q whole same (fun a mem => callers a mem ▸ fresh) fun id some_done => ?_
    by_cases mine : id = task.id
    · rw [mine, own_all]
      exact stopped.begun stands
    · exact absurd (own_of_ne mine callers) some_done
  · rintro waiting rfl
    rw [own_all, same]
    exact stopped.waitsAt stands
  · rintro result rfl
    rw [own_all, same]
    exact stopped.arrived stands

/-- Calling workflows out of the line for the shared key keeps a pool explained. -/
theorem callOut (h : Explained env ps w₀ p trace) :
    ∃ more, Explained env ps w₀ p.callOut (trace ++ more) :=
  h.wake (called p.world.key p.keys.holder) (Nat.le_refl _) (.inl rfl)
    (fun e mem _ called => wokenAs_of_called called (h.waiting e mem).early)
    (fun e mem _ => (h.waiting e mem).early)

/-- Time does not run back. -/
theorem le_nextTime (h : Explained env ps w₀ p trace) {time : Nat} (next : p.nextTime = some time) :
    p.world.now ≤ time := by
  obtain ⟨e, mem, at_time⟩ := List.mem_filterMap.mp (List.min?_eq_some_iff.mp next).1
  exact Nat.le_of_lt ((h.waiting e mem).early time at_time)

/-- Letting time pass when no workflow is ready keeps a pool explained. -/
theorem pass (h : Explained env ps w₀ p trace) (idle : p.ready = []) {time : Nat}
    (next : p.nextTime = some time) : ∃ more, Explained env ps w₀ (p.pass time) (trace ++ more) := by
  -- The time that is let pass is the least that any workflow waits for, so that none oversleeps.
  have least {e : Nat × Waiting I α} (mem : e ∈ p.waiting) {t : Nat} (at_t : timeOf e.2 = some t) :
      time ≤ t :=
    (List.min?_eq_some_iff.mp next).2 t (List.mem_filterMap.mpr ⟨e, mem, at_t⟩)
  refine h.wake (due time) (h.le_nextTime next) (.inr idle) (fun _ _ _ due => wokenAs_of_due due) ?_
  intro e mem none t at_t
  have ne : timeOf e.2 ≠ some time := by
    intro same
    unfold due at none
    rw [if_pos same] at none
    cases w : e.2 <;> rw [w] at none <;> simp at none
  exact Nat.lt_of_le_of_ne (least mem at_t) fun same => ne (same ▸ at_t)

/-- **Each step of a pool keeps it explained**, by more acts. -/
theorem step (h : Explained env ps w₀ p trace) (isFinal : α → Bool) {p' : Pool I σ α}
    (next : p.step env isFinal = some p') : ∃ more, Explained env ps w₀ p' (trace ++ more) := by
  rw [Pool.step] at next
  cases ready : p.ready with
  | nil =>
    rw [ready] at next
    obtain ⟨time, at_time, rfl⟩ := Option.map_eq_some_iff.mp next
    exact h.pass ready at_time
  | cons task rest =>
    rw [ready] at next
    obtain rfl := Option.some.inj next
    rw [runNext]
    rcases stops : advance env task.id (task.what.elim p.world (p.world.note task.id)) p.keys
      task.workflow with ⟨w, q, stop⟩
    simp only
    obtain ⟨more, _, _, fresh, ran, waits, ends⟩ := h.ran ready stops
    cases stop with
    | waits waiting =>
      obtain ⟨again, explained⟩ := (ran.putWaiting fresh (waits waiting rfl)).callOut
      rw [List.append_assoc] at explained
      exact ⟨_, explained⟩
    | ended result =>
      have put := ran.putEnded (e := ⟨task.id, w.now, result⟩) fresh (ends result rfl)
      simp only
      -- The end of one workflow may be final, and is the turn of the next otherwise.
      split
      · exact ⟨more, put.drop⟩
      · obtain ⟨again, explained⟩ := put.callOut
        rw [List.append_assoc] at explained
        exact ⟨_, explained.startNext⟩

/-- **Whatever a pool reaches is explained**, in whatever order those that are ready run. -/
theorem reaches (h : Explained env ps w₀ p trace) {isFinal : α → Bool} {p' : Pool I σ α}
    (reaches : Reaches env isFinal p p') : ∃ more, Explained env ps w₀ p' (trace ++ more) := by
  induction reaches with
  | refl => exact ⟨[], by rw [List.append_nil]; exact h⟩
  | step _ perm next ih =>
    obtain ⟨more, explained⟩ := ih
    obtain ⟨again, one⟩ := (explained.reorder perm).step isFinal next
    rw [List.append_assoc] at one
    exact ⟨_, one⟩

end Explained

/-- A pool that starts is explained by no acts at all. -/
theorem explained_start (env : Environment I σ) (w : World I σ) (limit : Nat)
    (ps : List (Workflow I α)) : Explained env ps w (start w limit ps) [] := by
  have task {task : Ready I α} (mem : task ∈ ps.zipIdx.map fun entry => ⟨entry.2, none, entry.1⟩) :
      ps[task.id]? = some task.workflow ∧ task.what = none := by
    obtain ⟨⟨p, id⟩, here, rfl⟩ := List.mem_map.mp mem
    exact ⟨List.mem_zipIdx_iff_getElem?.mp here, rfl⟩
  refine ⟨.refl env w, fun t mem => ?_, List.forall_mem_nil _, fun t mem => ?_,
    List.forall_mem_nil _, fun _ ne => absurd rfl ne, ?_⟩
  · obtain ⟨found, nothing⟩ := task (List.mem_of_mem_take mem)
    refine ⟨fun what e => by simp [nothing] at e, .arrived ⟨t.workflow, w.now, found, ?_⟩⟩
    rw [nothing]
    exact .here _ _
  · obtain ⟨found, nothing⟩ := task (List.mem_of_mem_drop mem)
    exact ⟨found, nothing, rfl⟩
  · have all : (start w limit ps : Pool I σ α).ids = List.range ps.length := by
      simp only [ids, start, List.map_nil, List.nil_append, List.append_nil]
      rw [← List.map_append, List.take_append_drop, List.map_map, List.range_eq_range',
        ← List.zipIdx_map_snd]
      rfl
    rw [all]
    exact List.nodup_range

/-- **Workflows that run side by side** each take one of their courses. -/
theorem explained_run (env : Environment I σ) (isFinal : α → Bool) (steps : Nat) (w : World I σ)
    (limit : Nat) (ps : List (Workflow I α)) :
    ∃ trace, Explained env ps w ((start w limit ps).run env isFinal steps) trace :=
  (explained_start env w limit ps).reaches (reaches_run env isFinal _ steps)

end Pool

end CertifiedCalls
