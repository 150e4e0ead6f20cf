import CertifiedCalls.Workflow.Pool
import CertifiedCalls.Workflow.Run

/-! # Requests and remarks
What a workflow does at a stroke: it makes a request without a limit and waits for the answer, and it
**remarks** on something by recording events. Remarks take no time and change nothing in a world but
its record. -/

namespace CertifiedCalls

variable {I : Interface} {σ α β : Type}

/-- The entries of events that a caller records at a time. -/
def remarks (time caller : Nat) (es : List Event) : List (Entry I) :=
  es.map fun e => ⟨time, caller, .said e⟩

/-- They are all of this caller. -/
theorem caller_of_mem_remarks (time caller : Nat) (es : List Event) :
    ∀ e ∈ remarks (I := I) time caller es, e.caller = caller := by
  intro e mem
  obtain ⟨_, _, rfl⟩ := List.mem_map.mp mem
  rfl

namespace World

/-- The world after a caller has recorded events. -/
def remark (w : World I σ) (caller : Nat) (es : List Event) : World I σ :=
  { w with past := (remarks w.now caller es).reverse ++ w.past }

/-- The world after the request of a caller has been made and answered. -/
def afterAnswer (w : World I σ) (caller : Nat) (r : I.Request) (s : Served σ (I.Answer r)) :
    World I σ :=
  { w.afterAsking caller r s.state with now := w.now + s.delay }.note caller
    (.answered w.asked r s.answer)

/-- The world some time later. -/
def later (w : World I σ) (nanos : Nat) : World I σ := { w with now := w.now + nanos }

@[simp] theorem record_note (w : World I σ) (caller : Nat) (what : Happening I) :
    (w.note caller what).record = w.record ++ [⟨w.now, caller, what⟩] := List.reverse_cons

@[simp] theorem record_afterAsking (w : World I σ) (caller : Nat) (r : I.Request) (state : σ) :
    (w.afterAsking caller r state).record = w.record ++ [⟨w.now, caller, .asked w.asked r⟩] :=
  List.reverse_cons

@[simp] theorem record_remark (w : World I σ) (caller : Nat) (es : List Event) :
    (w.remark caller es).record = w.record ++ remarks w.now caller es := by
  simp [record, remark]

@[simp] theorem record_afterAnswer (w : World I σ) (caller : Nat) (r : I.Request)
    (s : Served σ (I.Answer r)) :
    (w.afterAnswer caller r s).record = w.record ++ [⟨w.now, caller, .asked w.asked r⟩,
      ⟨w.now + s.delay, caller, .answered w.asked r s.answer⟩] := by
  simp [record, afterAnswer, afterAsking, note]

/-- Remarks one after the other. -/
theorem note_remark (w : World I σ) (caller : Nat) (e : Event) (es : List Event) :
    (w.note caller (.said e)).remark caller es = w.remark caller (e :: es) := by
  simp [remark, note, remarks]

/-- A request without a limit ends with its answer. -/
theorem delivery_of_no_limit (w : World I σ) (r : I.Request) (s : Served σ (I.Answer r)) :
    w.delivery r none s = ⟨w.now + s.delay, .answered w.asked r s.answer, some s.answer⟩ :=
  if_pos (Bool.or_true _)

end World

namespace Workflow

/-- Records events and goes on. -/
def remarking (es : List Event) (p : Workflow I α) : Workflow I α := es.foldr .emit p

/-- Recording events before a workflow and another is recording them before both. -/
theorem remarking_bind (es : List Event) (p : Workflow I α) (f : α → Workflow I β) :
    (remarking es p).bind f = remarking es (p.bind f) := by
  induction es with
  | nil => rfl
  | cons e es ih => exact congrArg (Workflow.emit e) ih

/-- A workflow that runs alone goes on from its remarks. -/
theorem run_remarking (env : Environment I σ) (w : World I σ) (es : List Event) (p : Workflow I α) :
    (remarking es p).run env w = p.run env (w.remark 0 es) := by
  induction es generalizing w with
  | nil => rfl
  | cons e es ih =>
    rw [← w.note_remark 0 e es]
    exact ih (w.note 0 (.said e))

/-- A workflow that runs alone goes on from the answer to its request. -/
theorem run_ask_bind (env : Environment I σ) (w : World I σ) (r : I.Request)
    (f : I.Answer r → Workflow I α) :
    ((ask r).bind f).run env w =
      (f (env w.state w.now r).answer).run env (w.afterAnswer 0 r (env w.state w.now r)) := by
  rw [ask, bind, run]
  simp only [w.delivery_of_no_limit]
  rfl

end Workflow

namespace Pool

/-- A workflow of a pool goes on from its remarks. -/
theorem advance_remarking (env : Environment I σ) (id : Nat) (w : World I σ) (q : KeyQueue)
    (es : List Event) (p : Workflow I α) :
    advance env id w q (Workflow.remarking es p) = advance env id (w.remark id es) q p := by
  induction es generalizing w with
  | nil => rfl
  | cons e es ih =>
    rw [← w.note_remark id e es]
    exact ih (w.note id (.said e))

/-- A workflow of a pool goes on from an answer that takes no time. -/
theorem advance_ask_bind_of_zero {env : Environment I σ} {w : World I σ} {r : I.Request}
    (zero : (env w.state w.now r).delay = 0) (id : Nat) (q : KeyQueue)
    (f : I.Answer r → Workflow I α) :
    advance env id w q ((Workflow.ask r).bind f) =
      advance env id ((w.afterAsking id r (env w.state w.now r).state).note id
        (.answered w.asked r (env w.state w.now r).answer)) q (f (env w.state w.now r).answer) := by
  rw [Workflow.ask, Workflow.bind, advance]
  simp only [w.delivery_of_no_limit]
  rw [if_pos (by omega)]
  rfl

/-- It waits for any other answer. -/
theorem advance_ask_bind_of_pos {env : Environment I σ} {w : World I σ} {r : I.Request}
    (pos : 0 < (env w.state w.now r).delay) (id : Nat) (q : KeyQueue)
    (f : I.Answer r → Workflow I α) :
    advance env id w q ((Workflow.ask r).bind f) =
      (w.afterAsking id r (env w.state w.now r).state, q,
        .waits (.until (w.now + (env w.state w.now r).delay)
          (some (.answered w.asked r (env w.state w.now r).answer))
          (f (env w.state w.now r).answer))) := by
  rw [Workflow.ask, Workflow.bind, advance]
  simp only [w.delivery_of_no_limit]
  rw [if_neg (by omega)]
  rfl

end Pool

/-! ### Courses of requests -/

@[simp] theorem requestsOf_remarks (time caller : Nat) (es : List Event) (rest : List (Entry I)) :
    requestsOf (remarks time caller es ++ rest) = requestsOf rest := by
  induction es with
  | nil => rfl
  | cons e es ih => exact ih

/-- Remarks at the end are no answers. -/
@[simp] theorem answeredAt_append_remarks (front : List (Entry I)) (time caller number : Nat)
    (es : List Event) :
    answeredAt (front ++ remarks time caller es) number = answeredAt front number := by
  have none : answeredAt (I := I) (remarks time caller es) number = none := by
    simp [answeredAt, remarks, List.findSome?_eq_none_iff]
  rw [answeredAt, List.findSome?_append]
  exact (congrArg _ none).trans (Option.or_none)

/-- Nor are they requests. -/
@[simp] theorem requestsOf_append_remarks (front : List (Entry I)) (time caller : Nat)
    (es : List Event) : requestsOf (front ++ remarks time caller es) = requestsOf front := by
  induction front with
  | nil => simpa using requestsOf_remarks time caller es ([] : List (Entry I))
  | cons entry front ih =>
    simp only [List.cons_append, requestsOf, answeredAt_append_remarks, ih]

end CertifiedCalls
