import CertifiedCalls.Proofs.Workflow.Course
import CertifiedCalls.Workflow.Run

/-! # Passages of worlds
A **passage** of a world is what happens to it through some acts: they are recorded, the shared key
is the one published last, claims end as the key at the time tells, and answers are the
environment's. A workflow that runs alone takes one of its courses and the world through its acts
(`Workflow.run_course`). -/

namespace CertifiedCalls

variable {I : Interface} {σ α : Type}

/-- The shared key after an act. -/
def keyThrough (key : Option Bytes) (a : Act I) : Option Bytes :=
  match a.deed with
  | .published new => some new
  | _ => key

/-- The shared key after acts. -/
def keyAfter (key : Option Bytes) (acts : List (Act I)) : Option Bytes := acts.foldl keyThrough key

/-- Acts are **honest** when each claim ends as the shared key at the time tells. -/
def Honest : Option Bytes → List (Act I) → Prop
  | _, [] => True
  | key, a :: rest =>
    (∀ k, a.deed = .claimed (.known k) → key = some k) ∧
      (a.deed = .claimed .granted → key = none) ∧ Honest (keyThrough key a) rest

/-- What happens is **served** by an environment when an answer is the environment's. -/
def Happening.Served (env : Environment I σ) : Happening I → Prop
  | .answered _ r answer => ∃ state now, answer = (env state now r).answer
  | _ => True

/-- A **passage** of a world through acts. -/
structure Passage (env : Environment I σ) (w w' : World I σ) (acts : List (Act I)) : Prop where
  /-- The acts are recorded. -/
  record : w'.record = w.record ++ kept acts
  /-- The shared key is the one published last. -/
  key : w'.key = keyAfter w.key acts
  /-- Claims end as the shared key tells. -/
  honest : Honest w.key acts
  /-- Answers are the environment's. -/
  served : ∀ entry ∈ kept acts, entry.what.Served env
  /-- Time does not go back. -/
  later : w.now ≤ w'.now

/-! ### The shared key -/

@[simp] theorem keyAfter_append (key : Option Bytes) (as bs : List (Act I)) :
    keyAfter key (as ++ bs) = keyAfter (keyAfter key as) bs := List.foldl_append

/-- Acts are honest when those in front are, and the others with the key that these leave. -/
theorem honest_append {key : Option Bytes} {as bs : List (Act I)} :
    Honest key (as ++ bs) ↔ Honest key as ∧ Honest (keyAfter key as) bs := by
  induction as generalizing key with
  | nil => exact ⟨fun h => ⟨trivial, h⟩, And.right⟩
  | cons a as ih =>
    rw [List.cons_append, Honest, Honest, ih, and_assoc, and_assoc]
    rfl

/-- The shared key after acts was there before or is published by one of them. -/
theorem keyAfter_eq_some {key : Option Bytes} {acts : List (Act I)} {k : Bytes}
    (h : keyAfter key acts = some k) : key = some k ∨ ∃ a ∈ acts, a.deed = .published k := by
  induction acts generalizing key with
  | nil => exact .inl h
  | cons a acts ih =>
    rcases ih h with h | ⟨b, mem, h⟩
    · cases deed : a.deed with
      | published new =>
        rw [keyThrough, deed] at h
        obtain rfl := Option.some.inj h
        exact .inr ⟨a, List.mem_cons_self, deed⟩
      | _ =>
        rw [keyThrough, deed] at h
        exact .inl h
    · exact .inr ⟨b, List.mem_cons_of_mem _ mem, h⟩

/-- The shared key stays known. -/
theorem isSome_keyAfter {key : Option Bytes} {acts : List (Act I)} (h : key.isSome) :
    (keyAfter key acts).isSome := by
  -- A key that is published takes the place of the one before, so there is always one.
  induction acts generalizing key with
  | nil => exact h
  | cons a acts ih =>
    apply ih
    rw [keyThrough]
    split
    · rfl
    · exact h

namespace Honest

variable {key : Option Bytes} {acts : List (Act I)}

/-- A key that a claim told was there before or was published. -/
theorem of_known (h : Honest key acts) {a : Act I} (mem : a ∈ acts) {k : Bytes}
    (known : a.deed = .claimed (.known k)) :
    key = some k ∨ ∃ b ∈ acts, b.deed = .published k := by
  obtain ⟨as, bs, rfl⟩ := List.append_of_mem mem
  have told := (honest_append.mp h).2.1 k known
  exact (keyAfter_eq_some told).imp_right fun ⟨b, mem, e⟩ => ⟨b, List.mem_append_left _ mem, e⟩

/-- A claim is granted only where no key was there before. -/
theorem of_granted (h : Honest key acts) {a : Act I} (mem : a ∈ acts)
    (granted : a.deed = .claimed .granted) : key = none := by
  obtain ⟨as, bs, rfl⟩ := List.append_of_mem mem
  have missing := (honest_append.mp h).2.2.1 granted
  -- With a key before, there would be one at the time of the claim too.
  cases key with
  | none => rfl
  | some k =>
    have known : (keyAfter (some k) as).isSome := isSome_keyAfter rfl
    rw [missing] at known
    exact absurd known Bool.false_ne_true

end Honest

/-! ### Passages -/

namespace Passage

variable {env : Environment I σ} {w w₁ w₂ : World I σ} {as bs : List (Act I)}

/-- Nothing happens to a world. -/
theorem refl (env : Environment I σ) (w : World I σ) : Passage env w w [] :=
  ⟨(List.append_nil _).symm, rfl, trivial, List.forall_mem_nil _, Nat.le_refl _⟩

/-- One passage after another. -/
theorem trans (first : Passage env w w₁ as) (second : Passage env w₁ w₂ bs) :
    Passage env w w₂ (as ++ bs) where
  record := by rw [second.record, first.record, kept_append, List.append_assoc]
  key := by rw [second.key, first.key, keyAfter_append]
  honest := by
    have later := second.honest
    rw [first.key] at later
    exact honest_append.mpr ⟨first.honest, later⟩
  served entry mem := by
    rw [kept_append, List.mem_append] at mem
    exact mem.elim (first.served entry) (second.served entry)
  later := Nat.le_trans first.later second.later

/-- What happens now is recorded. -/
theorem note (env : Environment I σ) (w : World I σ) (id : Nat) (what : Happening I)
    (served : what.Served env) : Passage env w (w.note id what) [⟨w.now, id, .kept what⟩] where
  record := by simp [World.note, World.record]
  key := rfl
  honest := ⟨fun k e => by simp at e, fun e => by simp at e, trivial⟩
  served entry mem := by
    obtain rfl := List.mem_singleton.mp mem
    exact served
  later := Nat.le_refl _

/-- A request is made. -/
theorem asking (env : Environment I σ) (w : World I σ) (id : Nat) (r : I.Request) (state : σ) :
    Passage env w (w.afterAsking id r state) [⟨w.now, id, .kept (.asked w.asked r)⟩] where
  record := by simp [World.afterAsking, World.note, World.record]
  key := rfl
  honest := ⟨fun k e => by simp at e, fun e => by simp at e, trivial⟩
  served entry mem := by
    obtain rfl := List.mem_singleton.mp mem
    trivial
  later := Nat.le_refl _

/-- Time passes. -/
theorem waiting (env : Environment I σ) (w : World I σ) {time : Nat} (later : w.now ≤ time) :
    Passage env w { w with now := time } [] :=
  ⟨(List.append_nil _).symm, rfl, trivial, List.forall_mem_nil _, later⟩

/-- A claim ends as the shared key tells. -/
theorem claiming (env : Environment I σ) (w : World I σ) (time id : Nat) (outcome : Claim)
    (known : ∀ k, outcome = .known k → w.key = some k) (granted : outcome = .granted → w.key = none) :
    Passage env w w [⟨time, id, .claimed outcome⟩] where
  record := (List.append_nil _).symm
  key := rfl
  honest := ⟨fun k e => known k (by simpa using e), fun e => granted (by simpa using e), trivial⟩
  served _ mem := absurd mem List.not_mem_nil
  later := Nat.le_refl _

/-- The shared key is made known. -/
theorem publishing (env : Environment I σ) (w : World I σ) (time id : Nat) (key : Bytes) :
    Passage env w { w with key := some key } [⟨time, id, .published key⟩] where
  record := (List.append_nil _).symm
  key := rfl
  honest := ⟨fun k e => by simp at e, fun e => by simp at e, trivial⟩
  served _ mem := absurd mem List.not_mem_nil
  later := Nat.le_refl _

/-- The fetch of the shared key is left to others. -/
theorem releasing (env : Environment I σ) (w : World I σ) (time id : Nat) :
    Passage env w w [⟨time, id, .released⟩] where
  record := (List.append_nil _).symm
  key := rfl
  honest := ⟨fun k e => by simp at e, fun e => by simp at e, trivial⟩
  served _ mem := absurd mem List.not_mem_nil
  later := Nat.le_refl _

end Passage

namespace World

variable (w : World I σ) (r : I.Request) (limit : Option Nat) (s : Served σ (I.Answer r))

/-- A request that is answered in time ends with the answer. -/
theorem delivery_of_inTime (h : isInTime w.now s.delay limit = true) :
    w.delivery r limit s = ⟨w.now + s.delay, .answered w.asked r s.answer, some s.answer⟩ := by
  rw [delivery, if_pos h]

/-- Any other request is given up. -/
theorem delivery_of_late (h : isInTime w.now s.delay limit = false) :
    w.delivery r limit s = ⟨lapseTime w.now limit, .abandoned w.asked r, none⟩ := by
  rw [delivery, if_neg (by rw [h]; exact Bool.false_ne_true)]

/-- A request does not end before it is made. -/
theorem le_time_delivery : w.now ≤ (w.delivery r limit s).time := by
  rw [delivery]
  split
  · exact Nat.le_add_right _ _
  · exact Nat.le_max_left _ _

/-- The end of a request that the environment answers is served by it. -/
theorem delivery_served (env : Environment I σ) :
    (w.delivery r limit (env w.state w.now r)).what.Served env := by
  rw [delivery]
  split
  · exact ⟨w.state, w.now, rfl⟩
  · trivial

/-- A request and its end are the beginning of a course. -/
theorem course_of_delivery {id t u : Nat} {next : Option (I.Answer r) → Workflow I α}
    {q : Workflow I α} {acts : List (Act I)} (time : (w.delivery r limit s).time = t)
    (rest : Course id (next (w.delivery r limit s).answer) t acts q u) :
    Course id (.request r limit next) w.now
      (⟨w.now, id, .kept (.asked w.asked r)⟩ :: ⟨t, id, .kept (w.delivery r limit s).what⟩ :: acts)
      q u := by
  subst time
  -- The end of the request decides which of the two courses it begins.
  cases h : isInTime w.now s.delay limit with
  | true =>
    rw [w.delivery_of_inTime r limit s h] at rest ⊢
    exact .answered w.asked s.delay s.answer h rest
  | false =>
    rw [w.delivery_of_late r limit s h] at rest ⊢
    exact .abandoned w.asked s.delay h rest

end World

namespace Workflow

/-- A workflow that runs alone takes one of its courses, and the world through its acts. -/
theorem run_course (env : Environment I σ) (w : World I σ) (p : Workflow I α) :
    ∃ acts, Passage env w (p.run env w).1 acts ∧
      Course 0 p w.now acts ((p.run env w).2.elim .unfinished .done) (p.run env w).1.now := by
  -- On the workflow, for all worlds: each step is a passage of its own, followed by that of the rest.
  induction p generalizing w with
  | done a => exact ⟨[], .refl env w, .here _ _⟩
  | unfinished => exact ⟨[], .refl env w, .here _ _⟩
  | emit e next ih =>
    obtain ⟨acts, passage, course⟩ := ih (w.note 0 (.said e))
    exact ⟨_ :: acts, (Passage.note env w 0 (.said e) trivial).trans passage, .emit course⟩
  | clock next ih =>
    obtain ⟨acts, passage, course⟩ := ih w.now w
    exact ⟨acts, passage, .clock course⟩
  | sleep nanos next ih =>
    obtain ⟨acts, passage, course⟩ := ih { w with now := w.now + nanos }
    exact ⟨acts, (Passage.waiting env w (Nat.le_add_right _ _)).trans passage, .sleep course⟩
  | request r limit next ih =>
    have served := w.delivery_served r limit env
    have later := w.le_time_delivery r limit (env w.state w.now r)
    obtain ⟨acts, passage, course⟩ := ih (w.delivery r limit (env w.state w.now r)).answer
      ({ w.afterAsking 0 r (env w.state w.now r).state with
        now := (w.delivery r limit (env w.state w.now r)).time }.note 0
          (w.delivery r limit (env w.state w.now r)).what)
    refine ⟨_ :: _ :: acts, ?_, w.course_of_delivery r limit _ rfl course⟩
    have asked := Passage.asking env w 0 r (env w.state w.now r).state
    have passed := Passage.waiting env (w.afterAsking 0 r (env w.state w.now r).state) later
    exact ((asked.trans passed).trans (Passage.note env _ 0 _ served)).trans passage
  | claim limit next ih =>
    -- A workflow that runs alone waits for no other: with no key yet its claim is granted.
    rw [run]
    cases key : w.key with
    | some k =>
      obtain ⟨acts, passage, course⟩ := ih (.known k) w
      have claim := Passage.claiming env w w.now 0 (.known k)
        (fun k' e => by rw [key, (Claim.known.inj e)]) (fun e => by simp at e)
      exact ⟨_ :: acts, claim.trans passage,
        .claim (.known k) 0 (fun _ => rfl) (fun e => by simp at e) course⟩
    | none =>
      obtain ⟨acts, passage, course⟩ := ih .granted w
      have claim := Passage.claiming env w w.now 0 .granted
        (fun k' e => by simp at e) (fun _ => key)
      exact ⟨_ :: acts, claim.trans passage,
        .claim .granted 0 (fun _ => rfl) (fun e => by simp at e) course⟩
  | publish key next ih =>
    obtain ⟨acts, passage, course⟩ := ih { w with key := some key }
    exact ⟨_ :: acts, (Passage.publishing env w w.now 0 key).trans passage, .publish course⟩
  | release next ih =>
    obtain ⟨acts, passage, course⟩ := ih w
    exact ⟨_ :: acts, (Passage.releasing env w w.now 0).trans passage, .release course⟩

end Workflow

end CertifiedCalls
