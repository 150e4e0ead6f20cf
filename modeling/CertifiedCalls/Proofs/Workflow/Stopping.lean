import CertifiedCalls.Proofs.Workflow.Passage
import CertifiedCalls.Workflow.Pool

/-! # Courses until a stop
A workflow of a pool runs until it ends or has to wait. By then it has taken the beginning of one of
its courses, and the world through the acts of it, in no time (`advance_course`). What a workflow that
waits for a time goes on with is foreseen: its course is known up to that time. -/

namespace CertifiedCalls

variable {I : Interface} {σ α : Type}

/-- The acts of a workflow that goes on at a time with something that happens to it first. -/
def foreseen (id time : Nat) (what : Option (Happening I)) : List (Act I) :=
  what.toList.map fun what => ⟨time, id, .kept what⟩

/-- All foreseen acts are the workflow's own. -/
theorem caller_of_mem_foreseen {id time : Nat} {what : Option (Happening I)} {a : Act I}
    (mem : a ∈ foreseen id time what) : a.caller = id := by
  obtain ⟨_, _, rfl⟩ := List.mem_map.mp mem
  rfl

namespace Pool

variable {env : Environment I σ}

/-- A workflow stops by some of its acts where its course ends or where it waits. -/
def StopsAt (env : Environment I σ) (id : Nat) (p : Workflow I α) (now : Nat) (acts : List (Act I)) :
    Stop I α → Prop
  | .ended result => Course id p now acts (result.elim .unfinished .done) now
  | .waits (.until time what next) =>
    now < time ∧ (∀ h, what = some h → h.Served env) ∧
      Course id p now (acts ++ foreseen id time what) next time
  | .waits (.inLine limit next) =>
    (∀ l, limit = some l → now < l) ∧ Course id p now acts (.claim limit next) now

/-- A workflow stops where what is left of it after some acts does. -/
theorem StopsAt.after {id now : Nat} {p q : Workflow I α} {acts : List (Act I)} {stop : Stop I α}
    (front : List (Act I))
    (goes : ∀ acts r u, Course id q now acts r u → Course id p now (front ++ acts) r u)
    (h : StopsAt env id q now acts stop) : StopsAt env id p now (front ++ acts) stop := by
  match stop, h with
  | .ended result, h => exact goes _ _ _ h
  | .waits (.until time what next), ⟨later, served, h⟩ =>
    refine ⟨later, served, ?_⟩
    rw [List.append_assoc]
    exact goes _ _ _ h
  | .waits (.inLine limit next), ⟨early, h⟩ => exact ⟨early, goes _ _ _ h⟩

/-- Running until it has to stop, a workflow takes the beginning of one of its courses, and the world
through its acts, in no time. -/
theorem advance_course (env : Environment I σ) (id : Nat) (w : World I σ) (q : KeyQueue)
    (p : Workflow I α) :
    ∃ acts, Passage env w (advance env id w q p).1 acts ∧ (advance env id w q p).1.now = w.now ∧
      (∀ a ∈ acts, a.caller = id) ∧ StopsAt env id p w.now acts (advance env id w q p).2.2 := by
  -- On the workflow, for all worlds and queues. Where it goes on at once, its first act is put in front
  -- of those of the rest; where it stops, there are no acts but those that are recorded at once.
  induction p generalizing w q with
  | done a =>
    exact ⟨[], .refl env w, rfl, List.forall_mem_nil _, .here _ _⟩
  | unfinished =>
    exact ⟨[], .refl env w, rfl, List.forall_mem_nil _, .here _ _⟩
  | emit e next ih =>
    obtain ⟨acts, passage, same, mine, stop⟩ := ih (w.note id (.said e)) q
    exact ⟨_ :: acts, (Passage.note env w id (.said e) trivial).trans passage, same,
      List.forall_mem_cons.mpr ⟨rfl, mine⟩, stop.after [_] fun _ _ _ h => .emit h⟩
  | clock next ih =>
    obtain ⟨acts, passage, same, mine, stop⟩ := ih w.now w q
    exact ⟨acts, passage, same, mine, stop.after [] fun _ _ _ h => .clock h⟩
  | sleep nanos next ih =>
    rw [advance]
    by_cases zero : nanos = 0
    · rw [if_pos zero]
      obtain ⟨acts, passage, same, mine, stop⟩ := ih w q
      refine ⟨acts, passage, same, mine, stop.after [] fun _ _ _ h => .sleep ?_⟩
      rw [zero]
      exact h
    -- It stops, and what it goes on with is its course after the pause.
    · rw [if_neg zero]
      exact ⟨[], .refl env w, rfl, List.forall_mem_nil _,
        Nat.lt_add_of_pos_right (Nat.pos_of_ne_zero zero), fun h e => by simp at e,
        .sleep (.here _ _)⟩
  | request r limit next ih =>
    have served := w.delivery_served r limit env
    have later := w.le_time_delivery r limit (env w.state w.now r)
    have asked := Passage.asking env w id r (env w.state w.now r).state
    rw [advance]
    by_cases now : (w.delivery r limit (env w.state w.now r)).time ≤ w.now
    · have same_time := Nat.le_antisymm now later
      rw [if_pos now]
      obtain ⟨acts, passage, same, mine, stop⟩ := ih (w.delivery r limit (env w.state w.now r)).answer
        ((w.afterAsking id r (env w.state w.now r).state).note id
          (w.delivery r limit (env w.state w.now r)).what) q
      refine ⟨_ :: _ :: acts, asked.trans ((Passage.note env _ id _ served).trans passage), same,
        List.forall_mem_cons.mpr ⟨rfl, List.forall_mem_cons.mpr ⟨rfl, mine⟩⟩,
        stop.after [_, _] fun _ _ _ h => w.course_of_delivery r limit _ same_time h⟩
    -- It stops, and the end of the request is foreseen.
    · rw [if_neg now]
      exact ⟨_, asked, rfl, List.forall_mem_singleton.mpr rfl, Nat.lt_of_not_le now,
        fun h e => Option.some.inj e ▸ served,
        w.course_of_delivery r limit _ rfl (.here _ _)⟩
  | claim limit next ih =>
    rw [advance]
    cases key : w.key with
    | some k =>
      obtain ⟨acts, passage, same, mine, stop⟩ := ih (.known k) w q
      have claim := Passage.claiming env w w.now id (.known k)
        (fun k' e => by rw [key, Claim.known.inj e]) (fun e => by simp at e)
      exact ⟨_ :: acts, claim.trans passage, same, List.forall_mem_cons.mpr ⟨rfl, mine⟩,
        stop.after [_] fun _ _ _ h => .claim (.known k) 0 (fun _ => rfl) (fun e => by simp at e) h⟩
    | none =>
      simp only
      -- With no key yet, the queue decides: the claim is granted, has lapsed already, or waits in line.
      by_cases free : q.holder.all (· = id) = true
      · rw [if_pos free]
        obtain ⟨acts, passage, same, mine, stop⟩ := ih .granted w { q with holder := some id }
        have claim := Passage.claiming env w w.now id .granted
          (fun k' e => by simp at e) (fun _ => key)
        exact ⟨_ :: acts, claim.trans passage, same, List.forall_mem_cons.mpr ⟨rfl, mine⟩,
          stop.after [_] fun _ _ _ h => .claim .granted 0 (fun _ => rfl) (fun e => by simp at e) h⟩
      · rw [if_neg free]
        by_cases past : limit.any (· ≤ w.now) = true
        · rw [if_pos past]
          obtain ⟨acts, passage, same, mine, stop⟩ := ih .lapsed w (q.leave id)
          have claim := Passage.claiming env w w.now id .lapsed
            (fun k' e => by simp at e) (fun e => by simp at e)
          have lapse : limit.isSome ∧ w.now + 0 = lapseTime w.now limit := by
            cases limit with
            | none => simp at past
            | some l => exact ⟨rfl, (Nat.max_eq_left (of_decide_eq_true past)).symm⟩
          exact ⟨_ :: acts, claim.trans passage, same, List.forall_mem_cons.mpr ⟨rfl, mine⟩,
            stop.after [_] fun _ _ _ h => .claim .lapsed 0 (fun ne => absurd rfl ne)
              (fun _ => lapse) h⟩
        · rw [if_neg past]
          refine ⟨[], .refl env w, rfl, List.forall_mem_nil _, ?_, .here _ _⟩
          rintro l rfl
          simpa using past
  | publish key next ih =>
    obtain ⟨acts, passage, same, mine, stop⟩ := ih { w with key := some key } .free
    exact ⟨_ :: acts, (Passage.publishing env w w.now id key).trans passage, same,
      List.forall_mem_cons.mpr ⟨rfl, mine⟩, stop.after [_] fun _ _ _ h => .publish h⟩
  | release next ih =>
    obtain ⟨acts, passage, same, mine, stop⟩ := ih w q.passOn
    exact ⟨_ :: acts, (Passage.releasing env w w.now id).trans passage, same,
      List.forall_mem_cons.mpr ⟨rfl, mine⟩, stop.after [_] fun _ _ _ h => .release h⟩

end Pool

end CertifiedCalls
