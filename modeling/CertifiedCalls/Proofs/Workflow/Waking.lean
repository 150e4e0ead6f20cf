import CertifiedCalls.Proofs.Workflow.Explained

/-! # Waking workflows
Those that wait in a pool are woken when their time has come or their claims on the shared key have
ended. For each of the latter the end of its claim is one more act; with these acts the pool stays
explained (`Explained.wake`). One that is woken at the limit of its claim makes the claim once more, and
that claim ends when it runs. -/

namespace CertifiedCalls

variable {I : Interface} {σ α : Type}

namespace Pool

variable {env : Environment I σ} {ps : List (Workflow I α)}

/-- How a workflow that waits is woken, given the shared key and the time. -/
inductive WokenAs (key : Option Bytes) (time id : Nat) : Waiting I α → Ready I α → Prop
  /-- Its time has come. -/
  | until (what : Option (Happening I)) (next : Workflow I α) :
    WokenAs key time id (.until time what next) ⟨id, what, next⟩
  /-- Its claim has ended in time. -/
  | claim {limit : Option Nat} {next : Claim → Workflow I α} {outcome : Claim}
    (known : ∀ k, outcome = .known k → key = some k) (granted : outcome = .granted → key = none)
    (ended : outcome ≠ .lapsed) (inTime : ∀ l, limit = some l → time ≤ l) :
    WokenAs key time id (.inLine limit next) ⟨id, none, next outcome⟩
  /-- The limit of its claim has come. -/
  | limit (next : Claim → Workflow I α) :
    WokenAs key time id (.inLine (some time) next) ⟨id, none, .claim (some time) next⟩

/-- What is called out of the line is woken by the end of its claim. -/
theorem wokenAs_of_called {key : Option Bytes} {holder : Option Nat} {now id : Nat}
    {w : Waiting I α} {task : Ready I α} (called : Pool.called key holder id w = some task)
    (early : ∀ l, timeOf w = some l → now < l) : WokenAs key now id w task := by
  cases w with
  | «until» time what next => simp [Pool.called] at called
  | inLine limit next =>
    have inTime (l : Nat) (e : limit = some l) : now ≤ l := Nat.le_of_lt (early l e)
    -- With a key all are called out; with none only the workflow that holds the queue.
    cases key with
    | some k =>
      obtain rfl := Option.some.inj called
      exact .claim (fun k' e => by rw [Claim.known.inj e]) (fun e => by simp at e) nofun inTime
    | none =>
      rw [Pool.called] at called
      split at called
      · obtain rfl := Option.some.inj called
        exact .claim (fun k' e => by simp at e) (fun _ => rfl) nofun inTime
      · simp at called

/-- What is due is woken by its time or its limit. -/
theorem wokenAs_of_due {key : Option Bytes} {time id : Nat} {w : Waiting I α} {task : Ready I α}
    (due : Pool.due time id w = some task) : WokenAs key time id w task := by
  unfold Pool.due at due
  split at due
  · rename_i now
    cases w with
    | «until» t what next =>
      obtain rfl := Option.some.inj now
      obtain rfl := Option.some.inj due
      exact .until what next
    | inLine limit next =>
      obtain rfl : limit = some time := now
      obtain rfl := Option.some.inj due
      exact .limit next
  · simp at due

/-- A workflow that waits goes on later. -/
theorem WaitsAt.early {now id : Nat} {acts : List (Act I)} {w : Waiting I α}
    (h : WaitsAt env ps now id acts w) (t : Nat) (at_t : timeOf w = some t) : now < t := by
  match w, h with
  | .until time what next, ⟨later, _⟩ => exact Option.some.inj at_t ▸ later
  | .inLine limit next, ⟨early, _⟩ => exact early t at_t

/-- A workflow waits until its time has come. -/
theorem WaitsAt.later {now time id : Nat} {acts : List (Act I)} {w : Waiting I α}
    (h : WaitsAt env ps now id acts w) (later : now ≤ time)
    (early : ∀ t, timeOf w = some t → time < t) : WaitsAt env ps time id acts w := by
  match w, h with
  | .until t what next, ⟨_, served, arrived⟩ => exact ⟨early t rfl, served, arrived⟩
  | .inLine limit next, ⟨_, since, past, arrived⟩ =>
    exact ⟨early, since, Nat.le_trans past later, arrived⟩

/-- Waking only moves workflows. -/
theorem count_woken (i : Nat) (test : Nat → Waiting I α → Option (Ready I α))
    (ws : List (Nat × Waiting I α))
    (same : ∀ e ∈ ws, ∀ task, test e.1 e.2 = some task → task.id = e.1) :
    List.count i ((ws.filterMap fun e => test e.1 e.2).map Ready.id) +
      List.count i ((ws.filter fun e => (test e.1 e.2).isNone).map Prod.fst)
      = List.count i (ws.map Prod.fst) := by
  induction ws with
  | nil => rfl
  | cons first rest ih =>
    have later := ih fun e mem => same e (List.mem_cons_of_mem _ mem)
    cases tested : test first.1 first.2 with
    | none =>
      simp only [List.filterMap_cons, List.filter_cons, tested, Option.isNone_none, if_true,
        List.map_cons, List.count_cons]
      omega
    | some task =>
      have here := same first List.mem_cons_self task tested
      simp only [List.filterMap_cons, List.filter_cons, tested, Option.isNone_some,
        Bool.false_eq_true, if_false, List.map_cons, List.count_cons, here]
      omega

/-- A claim that ends in line is a course. -/
theorem course_of_claim {id since now : Nat} {limit : Option Nat} {next : Claim → Workflow I α}
    {outcome : Claim} (past : since ≤ now) (ended : outcome ≠ .lapsed)
    (inTime : ∀ l, limit = some l → now ≤ l) :
    Course id (.claim limit next) since [⟨now, id, .claimed outcome⟩] (next outcome) now := by
  -- The claim was made when the workflow joined the line, and has waited since then.
  obtain ⟨wait, rfl⟩ := Nat.exists_eq_add_of_le past
  refine .claim outcome wait (fun _ => ?_) (fun lapsed => absurd lapsed ended) (.here _ _)
  rw [isInTime, Bool.or_eq_true]
  cases limit with
  | none => exact .inr rfl
  | some l => exact .inr (decide_eq_true (inTime l rfl))

/-- Claims that end when workflows are woken take these to where they are ready, and change nothing
for those that go on waiting. -/
theorem exists_claims (env : Environment I σ) (ps : List (Workflow I α)) (w : World I σ)
    {before : Nat} (later : before ≤ w.now) (trace : List (Act I)) (test : Nat → Waiting I α →
      Option (Ready I α)) (ws : List (Nat × Waiting I α))
    (waits : ∀ e ∈ ws, WaitsAt env ps before e.1 (own e.1 trace) e.2)
    (woken : ∀ e ∈ ws, ∀ task, test e.1 e.2 = some task → WokenAs w.key w.now e.1 e.2 task)
    (apart : (ws.map Prod.fst).Nodup) :
    ∃ more, Passage env w w more ∧ (∀ a ∈ more, a.caller ∈ ws.map Prod.fst) ∧
      (∀ e ∈ ws, test e.1 e.2 = none → own e.1 more = []) ∧
      ∀ e ∈ ws, ∀ task, test e.1 e.2 = some task →
        task.id = e.1 ∧ ReadyAt env ps w.now (own e.1 trace ++ own e.1 more) task := by
  -- On those that wait. No workflow waits twice, so the acts of the rest are not those of the first.
  induction ws with
  | nil =>
    exact ⟨[], .refl env w, List.forall_mem_nil _,
      List.forall_mem_nil _, List.forall_mem_nil _⟩
  | cons first rest ih =>
    obtain ⟨id, waiting⟩ := first
    rw [List.map_cons, List.nodup_cons] at apart
    obtain ⟨fresh, apart⟩ := apart
    obtain ⟨more, passage, callers, idle, ready⟩ := ih
      (fun e mem => waits e (List.mem_cons_of_mem _ mem))
      (fun e mem => woken e (List.mem_cons_of_mem _ mem)) apart
    have nothing : own id more = [] :=
      List.filter_eq_nil_iff.mpr fun a mem e => fresh (of_decide_eq_true e ▸ callers a mem)
    have wider (a : Act I) (mem : a ∈ more) : a.caller ∈ ((id, waiting) :: rest).map Prod.fst :=
      List.mem_cons_of_mem _ (callers a mem)
    cases tested : test id waiting with
    | none =>
      refine ⟨more, passage, wider, ?_, ?_⟩
      · exact List.forall_mem_cons.mpr ⟨fun _ => nothing, idle⟩
      · refine List.forall_mem_cons.mpr ⟨fun task e => ?_, ready⟩
        rw [tested] at e
        exact nomatch e
    | some task =>
      have here := waits (id, waiting) List.mem_cons_self
      have how := woken (id, waiting) List.mem_cons_self task tested
      -- A time or a limit that has come adds no act, a claim that has ended adds one.
      cases how with
      | «until» what next =>
        obtain ⟨_, served, arrived⟩ := here
        refine ⟨more, passage, wider, List.forall_mem_cons.mpr ⟨fun _ => nothing, idle⟩, ?_⟩
        refine List.forall_mem_cons.mpr ⟨fun task e => ?_, ready⟩
        obtain rfl := Option.some.inj (tested.symm.trans e)
        refine ⟨rfl, served, ?_⟩
        rw [nothing, List.append_nil]
        exact .arrived arrived
      | limit next =>
        obtain ⟨_, since, past, arrived⟩ := here
        refine ⟨more, passage, wider, List.forall_mem_cons.mpr ⟨fun _ => nothing, idle⟩, ?_⟩
        refine List.forall_mem_cons.mpr ⟨fun task e => ?_, ready⟩
        obtain rfl := Option.some.inj (tested.symm.trans e)
        refine ⟨rfl, nofun, ?_⟩
        simp only [nothing, foreseen, Option.toList_none, List.map_nil, List.append_nil]
        exact .waited (Nat.le_trans past later) arrived
      | @claim limit next outcome known granted ended inTime =>
        obtain ⟨_, since, past, arrived⟩ := here
        have elsewhere {e : Nat × Waiting I α} (mem : e ∈ rest) :
            own e.1 (⟨w.now, id, .claimed outcome⟩ :: more) = own e.1 more := by
          have ne : id ≠ e.1 := by
            rintro rfl
            exact fresh (List.mem_map.mpr ⟨e, mem, rfl⟩)
          exact List.filter_cons_of_neg fun e => ne (of_decide_eq_true e)
        refine ⟨⟨w.now, id, .claimed outcome⟩ :: more,
          (Passage.claiming env w w.now id outcome known granted).trans passage,
          List.forall_mem_cons.mpr ⟨List.mem_cons_self, wider⟩, ?_, ?_⟩
        · refine List.forall_mem_cons.mpr ⟨fun none => ?_, fun e mem none => ?_⟩
          · rw [tested] at none
            exact nomatch none
          · rw [elsewhere mem]
            exact idle e mem none
        · refine List.forall_mem_cons.mpr ⟨fun task e => ?_, fun e mem task some => ?_⟩
          · obtain rfl := Option.some.inj (tested.symm.trans e)
            refine ⟨rfl, fun h e => by simp at e, ?_⟩
            have single : own id (⟨w.now, id, .claimed outcome⟩ :: more)
                = [⟨w.now, id, .claimed outcome⟩] := by
              have mine := List.filter_cons_of_pos (p := fun a : Act I => decide (a.caller = id))
                (a := ⟨w.now, id, .claimed outcome⟩) (l := more) (decide_eq_true rfl)
              exact mine.trans (congrArg _ nothing)
            rw [single]
            simp only [foreseen, Option.toList_none, List.map_nil, List.append_nil]
            exact .arrived (arrived.trans (course_of_claim (Nat.le_trans past later) ended inTime))
          · rw [elsewhere mem]
            exact ready e mem task some

namespace Explained

variable {w₀ : World I σ} {p : Pool I σ α} {trace : List (Act I)}

/-- Workflows that wait are woken, at once or, when none is ready, after some time. -/
theorem wake (h : Explained env ps w₀ p trace) {time : Nat}
    (test : Nat → Waiting I α → Option (Ready I α)) (later : p.world.now ≤ time)
    (at_once : p.world.now = time ∨ p.ready = [])
    (woken : ∀ e ∈ p.waiting, ∀ task, test e.1 e.2 = some task →
      WokenAs p.world.key time e.1 e.2 task)
    (kept : ∀ e ∈ p.waiting, test e.1 e.2 = none → ∀ t, timeOf e.2 = some t → time < t) :
    ∃ more, Explained env ps w₀ ({ p with world := { p.world with now := time } }.wake test)
      (trace ++ more) := by
  have apart := h.apart
  rw [ids, List.nodup_append, List.nodup_append] at apart
  obtain ⟨_, ⟨waiting_apart, _, waiting_apart_rest⟩, ready_apart⟩ := apart
  obtain ⟨more, passage, callers, idle, ready⟩ := exists_claims env ps
    { p.world with now := time } later trace test p.waiting h.waiting woken waiting_apart
  -- What is added to the trace belongs to workflows that waited.
  have elsewhere {id : Nat} (fresh : id ∉ p.waiting.map Prod.fst) :
      own id (trace ++ more) = own id trace := by
    have nothing : own id more = [] :=
      List.filter_eq_nil_iff.mpr fun a mem e => fresh (of_decide_eq_true e ▸ callers a mem)
    rw [own_append, nothing, List.append_nil]
  have woken_ready : ∀ task ∈ p.waiting.filterMap (fun e => test e.1 e.2),
      ReadyAt env ps time (own task.id (trace ++ more)) task := by
    intro task mem
    obtain ⟨e, here, tested⟩ := List.mem_filterMap.mp mem
    obtain ⟨same, task_ready⟩ := ready e here task tested
    rw [same, own_append]
    exact task_ready
  have whole : Passage env w₀ { p.world with now := time } (trace ++ more) := by
    have waited := h.passage.trans (.waiting env p.world later)
    rw [List.append_nil] at waited
    exact waited.trans passage
  -- What is ready, what waits, what is queued, what has ended, what has begun, and no place twice.
  refine ⟨more, whole, ?_, ?_, ?_, ?_, ?_, ?_⟩
  · refine List.forall_mem_append.mpr ⟨fun task mem => ?_, woken_ready⟩
    rcases at_once with now | none
    · rw [elsewhere fun waits => ready_apart task.id (List.mem_map_of_mem mem) task.id
        (List.mem_append_left _ waits) rfl]
      have as_before := h.ready task mem
      rw [now] at as_before
      exact as_before
    · rw [none] at mem
      exact absurd mem List.not_mem_nil
  · intro e mem
    obtain ⟨here, asleep⟩ := List.mem_filter.mp mem
    have none : test e.1 e.2 = none := Option.isNone_iff_eq_none.mp asleep
    rw [own_append, idle e here none, List.append_nil]
    exact (h.waiting e here).later later (kept e here none)
  · intro task mem
    rw [elsewhere fun waits => waiting_apart_rest task.id waits task.id
      (List.mem_append_left _ (List.mem_map_of_mem mem)) rfl]
    exact h.queued task mem
  · intro e mem
    rw [elsewhere fun waits => waiting_apart_rest e.id waits e.id
      (List.mem_append_right _ (List.mem_map_of_mem mem)) rfl]
    exact h.ended e mem
  · intro id some_done
    by_cases waits : id ∈ p.waiting.map Prod.fst
    · obtain ⟨e, here, rfl⟩ := List.mem_map.mp waits
      cases tested : test e.1 e.2 with
      | none =>
        rw [own_append, idle e here tested, List.append_nil] at some_done ⊢
        exact h.begun e.1 some_done
      | some task =>
        obtain ⟨same, task_ready⟩ := ready e here task tested
        rw [own_append]
        obtain ⟨_, arrived⟩ := task_ready.stands.exists_arrived
        rw [same] at arrived
        exact ⟨_, _, _, arrived⟩
    · rw [elsewhere waits] at some_done ⊢
      exact h.begun id some_done
  · refine (List.perm_iff_count.mpr fun i => ?_).nodup_iff.mpr h.apart
    have moved := count_woken i test p.waiting fun e mem task tested =>
      (ready e mem task tested).1
    simp only [ids, Pool.wake, List.map_append, List.count_append]
    omega

end Explained

end Pool

end CertifiedCalls
