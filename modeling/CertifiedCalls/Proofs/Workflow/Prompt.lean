import CertifiedCalls.Proofs.Workflow.Passage
import CertifiedCalls.Workflow.Pool

/-! # Prompt answers
Some requests are answered **at once**: the environment takes no time over them. In the record each
such answer stands right after its request, of the same caller and at the same time, whether
workflows run alone (`Workflow.run_prompt`) or side by side (`Pool.run_prompt`). -/

namespace CertifiedCalls

variable {I : Interface} {σ α : Type} {prompt : I.Request → Prop}

/-- An environment answers some requests **at once**. -/
def AnswersAtOnce (prompt : I.Request → Prop) (env : Environment I σ) : Prop :=
  ∀ state now r, prompt r → (env state now r).delay = 0

/-- The answer to one of the requests that are answered at once. -/
def Happening.IsPrompt (prompt : I.Request → Prop) : Happening I → Prop
  | .answered _ r _ => prompt r
  | _ => False

/-- Entries, the latest first, in which each prompt answer stands right after its request. -/
def PromptPast (prompt : I.Request → Prop) : List (Entry I) → Prop
  | [] => True
  | entry :: past =>
    (∀ n r answer, entry.what = .answered n r answer → prompt r →
      ∃ rest, past = ⟨entry.time, entry.caller, .asked n r⟩ :: rest) ∧ PromptPast prompt past

namespace PromptPast

variable {past newer : List (Entry I)}

/-- Something that is no prompt answer. -/
theorem singleton {entry : Entry I} (other : ¬ entry.what.IsPrompt prompt) :
    PromptPast prompt [entry] := by
  refine ⟨fun n r answer e here => absurd ?_ other, trivial⟩
  rw [e]
  exact here

/-- What happens later does not change how the answers before it stand. -/
theorem append (earlier : PromptPast prompt past) (later : PromptPast prompt newer) :
    PromptPast prompt (newer ++ past) := by
  induction newer with
  | nil => exact earlier
  | cons entry newer ih =>
    refine ⟨fun n r answer e here => ?_, ih later.2⟩
    obtain ⟨rest, rfl⟩ := later.1 n r answer e here
    exact ⟨rest ++ past, rfl⟩

/-- A prompt answer stands right after its request. -/
theorem of_append {front : List (Entry I)} {entry : Entry I}
    (h : PromptPast prompt (front ++ entry :: past)) {n : Nat} {r : I.Request} {answer : I.Answer r}
    (e : entry.what = .answered n r answer) (here : prompt r) :
    ∃ rest, past = ⟨entry.time, entry.caller, .asked n r⟩ :: rest := by
  induction front with
  | nil => exact h.1 n r answer e here
  | cons _ _ ih => exact ih h.2

end PromptPast

/-- What has happened to a world since it was another one, with prompt answers at once. -/
def PromptSince (prompt : I.Request → Prop) (w w' : World I σ) : Prop :=
  ∃ newer, w'.past = newer ++ w.past ∧ PromptPast prompt newer

namespace PromptSince

variable {w w₁ w₂ : World I σ}

/-- Nothing has happened. -/
theorem refl (prompt : I.Request → Prop) (w : World I σ) : PromptSince prompt w w := ⟨[], rfl, trivial⟩

/-- One stretch after another. -/
theorem trans (first : PromptSince prompt w w₁) (second : PromptSince prompt w₁ w₂) :
    PromptSince prompt w w₂ := by
  obtain ⟨early, past, before⟩ := first
  obtain ⟨late, past', after⟩ := second
  exact ⟨late ++ early, by rw [past', past, List.append_assoc], before.append after⟩

/-- A change that leaves the record alone. -/
theorem same (prompt : I.Request → Prop) (w : World I σ) {w' : World I σ} (past : w'.past = w.past) :
    PromptSince prompt w w' := ⟨[], past, trivial⟩

/-- Something that is no prompt answer has happened. -/
theorem note (w : World I σ) (id : Nat) (what : Happening I) (other : ¬ what.IsPrompt prompt) :
    PromptSince prompt w (w.note id what) :=
  ⟨[⟨w.now, id, what⟩], rfl, .singleton other⟩

/-- A request has been made. -/
theorem asking (prompt : I.Request → Prop) (w : World I σ) (id : Nat) (r : I.Request) (state : σ) :
    PromptSince prompt w (w.afterAsking id r state) :=
  ⟨[⟨w.now, id, .asked w.asked r⟩], rfl, .singleton not_false⟩

end PromptSince

namespace World

variable {env : Environment I σ} (w : World I σ) (id : Nat) (r : I.Request) (limit : Option Nat)

/-- Requests that are answered at once end at once. -/
theorem time_delivery_of_prompt (atOnce : AnswersAtOnce prompt env)
    (h : (w.delivery r limit (env w.state w.now r)).what.IsPrompt prompt) :
    (w.delivery r limit (env w.state w.now r)).time = w.now := by
  cases inTime : isInTime w.now (env w.state w.now r).delay limit with
  | true =>
    rw [w.delivery_of_inTime r limit _ inTime] at h ⊢
    show w.now + _ = w.now
    rw [atOnce _ _ r h, Nat.add_zero]
  | false =>
    rw [w.delivery_of_late r limit _ inTime] at h
    exact h.elim

/-- A request and its end have happened. -/
theorem promptSince_delivery (atOnce : AnswersAtOnce prompt env) {w' : World I σ}
    (past : w'.past =
      ⟨(w.delivery r limit (env w.state w.now r)).time, id,
        (w.delivery r limit (env w.state w.now r)).what⟩ :: ⟨w.now, id, .asked w.asked r⟩ :: w.past) :
    PromptSince prompt w w' := by
  refine ⟨[_, _], past, fun n r' answer e here => ?_, .singleton not_false⟩
  -- A prompt answer belongs to this request and comes at the same time.
  have time := time_delivery_of_prompt w r limit atOnce (by
    have e : (w.delivery r limit (env w.state w.now r)).what = .answered n r' answer := e
    rw [e]
    exact here)
  rw [time]
  cases inTime : isInTime w.now (env w.state w.now r).delay limit with
  | true =>
    rw [w.delivery_of_inTime r limit _ inTime] at e
    injection e with number request
    subst number request
    exact ⟨[], rfl⟩
  | false =>
    rw [w.delivery_of_late r limit _ inTime] at e
    exact nomatch e

end World

/-- When a workflow runs **alone**, prompt answers come at once. -/
theorem Workflow.run_prompt {env : Environment I σ} (atOnce : AnswersAtOnce prompt env)
    (w : World I σ) (p : Workflow I α) : PromptSince prompt w (p.run env w).1 := by
  -- On the workflow, for all worlds.
  induction p generalizing w with
  | done | unfinished => exact .refl prompt w
  | emit e next ih => exact (PromptSince.note w 0 (.said e) not_false).trans (ih _)
  | clock next ih => exact ih _ _
  | sleep nanos next ih => exact (PromptSince.same prompt w rfl).trans (ih _)
  | request r limit next ih => exact (w.promptSince_delivery 0 r limit atOnce rfl).trans (ih _ _)
  | claim limit next ih =>
    rw [run]
    split <;> exact ih _ _
  | publish key next ih => exact (PromptSince.same prompt w rfl).trans (ih _)
  | release next ih => exact ih _

namespace Pool

/-- What is foreseen for a workflow is no prompt answer. -/
def Unprompted (prompt : I.Request → Prop) (what : Option (Happening I)) : Prop :=
  ∀ happening, what = some happening → ¬ happening.IsPrompt prompt

/-- What a waiting workflow waits for is no prompt answer. -/
def Waiting.Unprompted (prompt : I.Request → Prop) : Waiting I α → Prop
  | .until _ what _ => Pool.Unprompted prompt what
  | .inLine _ _ => True

/-- What a workflow that has stopped waits for is no prompt answer. -/
def Stop.Unprompted (prompt : I.Request → Prop) : Stop I α → Prop
  | .waits w => Waiting.Unprompted prompt w
  | .ended _ => True

/-- A workflow that runs until it has to stop is answered at once where answers are prompt, and does
not wait for them. -/
theorem advance_prompt {env : Environment I σ} (atOnce : AnswersAtOnce prompt env) (id : Nat)
    (w : World I σ) (q : KeyQueue) (p : Workflow I α) :
    PromptSince prompt w (advance env id w q p).1 ∧
      Stop.Unprompted prompt (advance env id w q p).2.2 := by
  induction p generalizing w q with
  | done | unfinished => exact ⟨.refl prompt w, trivial⟩
  | emit e next ih =>
    obtain ⟨since, stop⟩ := ih (w.note id (.said e)) q
    exact ⟨(PromptSince.note w id (.said e) not_false).trans since, stop⟩
  | clock next ih => exact ih _ _ _
  | sleep nanos next ih =>
    rw [advance]
    split
    · exact ih _ _
    · exact ⟨.refl prompt w, fun _ e => nomatch e⟩
  | request r limit next ih =>
    rw [advance]
    split
    · rename_i now
      have time := Nat.le_antisymm now (w.le_time_delivery r limit (env w.state w.now r))
      obtain ⟨since, stop⟩ := ih (w.delivery r limit (env w.state w.now r)).answer
        ((w.afterAsking id r (env w.state w.now r).state).note id
          (w.delivery r limit (env w.state w.now r)).what) q
      exact ⟨(w.promptSince_delivery id r limit atOnce (by rw [time]; rfl)).trans since, stop⟩
    -- A request that is waited for is not answered at once.
    · rename_i later
      refine ⟨.asking prompt w id r _, fun happening e here => later ?_⟩
      obtain rfl := Option.some.inj e
      exact Nat.le_of_eq (w.time_delivery_of_prompt r limit atOnce here)
  | claim limit next ih =>
    rw [advance]
    split
    · exact ih _ _ _
    · split
      · exact ih _ _ _
      · split
        · exact ih _ _ _
        · exact ⟨.refl prompt w, trivial⟩
  | publish key next ih =>
    obtain ⟨since, stop⟩ := ih { w with key := some key } .free
    exact ⟨(PromptSince.same prompt w rfl).trans since, stop⟩
  | release next ih => exact ih _ _

/-- A pool is **prompt** since a world when prompt answers have come at once and none is waited
for. -/
structure IsPrompt (prompt : I.Request → Prop) (w : World I σ) (p : Pool I σ α) : Prop where
  /-- They have come at once. -/
  since : PromptSince prompt w p.world
  /-- Those that are ready have waited for something else. -/
  ready : ∀ task ∈ p.ready, Unprompted prompt task.what
  /-- Those that wait do so for something else. -/
  waiting : ∀ entry ∈ p.waiting, Waiting.Unprompted prompt entry.2
  /-- Those that have not been started have waited for nothing. -/
  queued : ∀ task ∈ p.queued, Unprompted prompt task.what

/-- What is called out of the line has waited for no answer. -/
theorem unprompted_of_called {key : Option Bytes} {holder : Option Nat} {id : Nat}
    {w : Waiting I α} {task : Ready I α} (h : called key holder id w = some task) :
    Unprompted prompt task.what := by
  have nothing : task.what = none := by
    cases w with
    | «until» => exact nomatch h
    | inLine limit next =>
      cases key with
      | some k =>
        obtain rfl := Option.some.inj h
        rfl
      | none =>
        rw [called] at h
        split at h
        · obtain rfl := Option.some.inj h
          rfl
        · exact nomatch h
  intro happening e
  exact nomatch nothing.symm.trans e

/-- What is due has waited for what it waited for. -/
theorem unprompted_of_due {time id : Nat} {w : Waiting I α} {task : Ready I α}
    (waits : Waiting.Unprompted prompt w) (h : due time id w = some task) :
    Unprompted prompt task.what := by
  unfold due at h
  split at h
  · cases w with
    | «until» t what next =>
      obtain rfl := Option.some.inj h
      exact waits
    | inLine limit next =>
      obtain rfl := Option.some.inj h
      exact fun _ e => nomatch e
  · exact nomatch h

namespace IsPrompt

variable {w : World I σ} {p : Pool I σ α}

/-- Waking workflows makes no answer late. -/
theorem wake (h : IsPrompt prompt w p) (test : Nat → Waiting I α → Option (Ready I α))
    (woken : ∀ entry ∈ p.waiting, ∀ task, test entry.1 entry.2 = some task →
      Unprompted prompt task.what) : IsPrompt prompt w (p.wake test) where
  since := h.since
  ready := by
    refine List.forall_mem_append.mpr ⟨h.ready, fun task mem => ?_⟩
    obtain ⟨entry, here, tested⟩ := List.mem_filterMap.mp mem
    exact woken entry here task tested
  waiting entry mem := h.waiting entry (List.mem_filter.mp mem).1
  queued := h.queued

/-- Starting the next workflow makes no answer late. -/
theorem startNext (h : IsPrompt prompt w p) : IsPrompt prompt w p.startNext := by
  rw [Pool.startNext]
  split
  · exact h
  · rename_i next rest queued
    have all := h.queued
    rw [queued] at all
    obtain ⟨first, others⟩ := List.forall_mem_cons.mp all
    exact ⟨h.since, List.forall_mem_append.mpr ⟨h.ready, List.forall_mem_singleton.mpr first⟩,
      h.waiting, others⟩

/-- **Each step** keeps a pool prompt. -/
theorem step {env : Environment I σ} (atOnce : AnswersAtOnce prompt env) (h : IsPrompt prompt w p)
    (isFinal : α → Bool) {p' : Pool I σ α} (next : p.step env isFinal = some p') :
    IsPrompt prompt w p' := by
  rw [Pool.step] at next
  cases ready : p.ready with
  | nil =>
    rw [ready] at next
    obtain ⟨time, _, rfl⟩ := Option.map_eq_some_iff.mp next
    have later : IsPrompt prompt w { p with world := { p.world with now := time } } :=
      ⟨h.since.trans (.same prompt _ rfl), h.ready, h.waiting, h.queued⟩
    obtain ⟨since, ready, waiting, queued⟩ := later.wake (due time)
      fun entry mem _ => unprompted_of_due (h.waiting entry mem)
    exact ⟨since, ready, waiting, queued⟩
  | cons task rest =>
    have all := h.ready
    rw [ready] at next all
    obtain ⟨first, others⟩ := List.forall_mem_cons.mp all
    obtain rfl := Option.some.inj next
    rw [runNext]
    -- What the workflow has waited for happens first.
    have noted : PromptSince prompt w (task.what.elim p.world (p.world.note task.id)) := by
      cases what : task.what with
      | none => exact h.since
      | some happening => exact h.since.trans (.note _ _ _ (first happening what))
    rcases stops : advance env task.id (task.what.elim p.world (p.world.note task.id)) p.keys
      task.workflow with ⟨w', q, stop⟩
    have ran := advance_prompt atOnce task.id (task.what.elim p.world (p.world.note task.id)) p.keys
      task.workflow
    rw [stops] at ran
    obtain ⟨since, stopped⟩ := ran
    simp only
    have since := noted.trans since
    cases stop with
    | waits waiting =>
      have put : IsPrompt prompt w { p with
          ready := rest, world := w', keys := q, waiting := p.waiting ++ [(task.id, waiting)] } :=
        ⟨since, others, List.forall_mem_append.mpr ⟨h.waiting, List.forall_mem_singleton.mpr stopped⟩,
          h.queued⟩
      exact put.wake _ fun _ _ _ => unprompted_of_called
    | ended result =>
      have put : IsPrompt prompt w { p with
          ready := rest, world := w', keys := q, ended := ⟨task.id, w'.now, result⟩ :: p.ended } :=
        ⟨since, others, h.waiting, h.queued⟩
      simp only
      split
      · exact ⟨since, List.forall_mem_nil _, List.forall_mem_nil _, List.forall_mem_nil _⟩
      · exact (put.wake _ fun _ _ _ => unprompted_of_called).startNext

end IsPrompt

/-- When workflows run **side by side**, prompt answers come at once. -/
theorem run_prompt {env : Environment I σ} (atOnce : AnswersAtOnce prompt env) (isFinal : α → Bool)
    (steps : Nat) (w : World I σ) (limit : Nat) (ps : List (Workflow I α)) :
    PromptSince prompt w ((start w limit ps).run env isFinal steps).world := by
  have run (p : Pool I σ α) (h : IsPrompt prompt w p) :
      IsPrompt prompt w (p.run env isFinal steps) := by
    induction steps generalizing p with
    | zero => exact h
    | succ steps ih =>
      rw [Pool.run]
      cases next : p.step env isFinal with
      | none => exact h
      | some p' => exact ih p' (h.step atOnce isFinal next)
  have task {task : Ready I α} (mem : task ∈ ps.zipIdx.map fun entry => ⟨entry.2, none, entry.1⟩) :
      Unprompted prompt task.what := by
    obtain ⟨_, _, rfl⟩ := List.mem_map.mp mem
    intro _ e
    cases e
  exact (run _ ⟨.refl prompt w, fun _ mem => task (List.mem_of_mem_take mem),
    List.forall_mem_nil _, fun _ mem => task (List.mem_of_mem_drop mem)⟩).since

end Pool

end CertifiedCalls
