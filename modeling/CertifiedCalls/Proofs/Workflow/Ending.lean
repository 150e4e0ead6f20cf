import CertifiedCalls.Proofs.Workflow.Course

/-! # Ends of courses
A workflow comes to its **end** with a result, or without one where it has given up. One workflow
after another ends without a result when the first does, and otherwise as the second
(`Course.of_bind_end`). A workflow that **finishes** never ends without a result. -/

namespace CertifiedCalls

variable {I : Interface} {α β ε : Type}

namespace Workflow

/-- What is left of a workflow at its **end**, given its result, if it has one. -/
def atEnd (out : Option α) : Workflow I α := out.elim .unfinished .done

/-- The end with a result is that result. -/
theorem atEnd_eq_done {out : Option α} {a : α} (h : (atEnd out : Workflow I α) = .done a) :
    out = some a := by
  cases out with
  | none => exact nomatch h
  | some b => rw [Workflow.done.inj h]

/-- The end without a result has none. -/
theorem atEnd_eq_unfinished {out : Option α} (h : (atEnd out : Workflow I α) = .unfinished) :
    out = none := by
  cases out with
  | none => rfl
  | some b => exact nomatch h

/-- A workflow **finishes** when it gives up nowhere, as long as the requests that have no limit are
answered. -/
def Finishes : Workflow I α → Prop
  | .done _ => True
  | .unfinished => False
  | .emit _ next | .sleep _ next | .publish _ next | .release next => next.Finishes
  | .clock next => ∀ now, (next now).Finishes
  | .request _ limit next => ∀ answer, answer.isSome ∨ limit.isSome → (next answer).Finishes
  | .claim _ next => ∀ outcome, (next outcome).Finishes

namespace Finishes

variable {p : Workflow I α}

/-- Looking at the clock finishes. -/
theorem now : (Workflow.now : Workflow I Nat).Finishes := fun _ => trivial

/-- So does recording an event. -/
theorem say (e : Event) : (Workflow.say e : Workflow I Unit).Finishes := trivial

/-- So does sleeping. -/
theorem pause (nanos : Nat) : (Workflow.pause nanos : Workflow I Unit).Finishes := trivial

/-- So does a request without a limit. -/
theorem ask (r : I.Request) : (Workflow.ask r).Finishes := by
  rintro (_ | answer) answered
  · exact answered.elim Bool.false_ne_true Bool.false_ne_true
  · trivial

/-- A workflow that finishes and then another that does finish together. -/
theorem bind {f : α → Workflow I β} (first : p.Finishes) (second : ∀ a, (f a).Finishes) :
    (p.bind f).Finishes := by
  induction p with
  | done a => exact second a
  | unfinished => exact first.elim
  | emit _ _ ih | sleep _ _ ih | publish _ _ ih | release _ ih => exact ih first
  | clock _ ih | claim _ _ ih => exact fun _ => ih _ (first _)
  | request _ _ _ ih => exact fun _ answered => ih _ (first _ answered)

/-- The same of stretches that may fail. -/
theorem run_bind {x : ExceptT ε (Workflow I) α} {f : α → ExceptT ε (Workflow I) β}
    (first : x.run.Finishes) (second : ∀ a, (f a).run.Finishes) : (x >>= f).run.Finishes := by
  rw [Course.run_bind]
  refine first.bind fun outcome => ?_
  cases outcome with
  | ok a => exact second a
  | error e => trivial

/-- The same of a stretch after one that cannot fail. -/
theorem run_lift_bind {f : α → ExceptT ε (Workflow I) β} (first : p.Finishes)
    (second : ∀ a, (f a).run.Finishes) : (ExceptT.lift p >>= f).run.Finishes := by
  rw [Course.run_lift_bind]
  exact first.bind second

/-- A workflow that finishes does not end without a result. -/
theorem not_unfinished {q : Workflow I α} {id t u : Nat} {acts : List (Act I)} (h : p.Finishes)
    (course : Course id p t acts q u) : q ≠ .unfinished := by
  -- On the course: each act leaves a workflow that finishes.
  induction course with
  | here =>
    rintro rfl
    exact h
  | emit _ ih | sleep _ ih | publish _ ih | release _ ih => exact ih h
  | clock _ ih => exact ih (h _)
  | claim _ _ _ _ _ ih => exact ih (h _)
  | answered _ _ _ _ _ ih => exact ih (h _ (.inl rfl))
  | @abandoned r limit _ _ _ _ _ _ _ late _ ih =>
    -- Only a request that has a limit is given up.
    refine ih (h none (.inr ?_))
    cases limit with
    | none => simp [isInTime] at late
    | some l => rfl

end Finishes

end Workflow

namespace Course

open Workflow (atEnd atEnd_eq_done)

variable {id t u : Nat} {p : Workflow I α} {acts : List (Act I)}

/-- One workflow after another ends without a result where the first does, or it goes through the end
of the first to that of the second. -/
theorem of_bind_end {f : α → Workflow I β} {out : Option β}
    (h : Course id (p.bind f) t acts (atEnd out) u) :
    (out = none ∧ Course id p t acts .unfinished u) ∨
      ∃ a as bs v, acts = as ++ bs ∧ Course id p t as (.done a) v ∧
        Course id (f a) v bs (atEnd out) u := by
  rcases of_bind h with ⟨p', e, within⟩ | both
  -- A course that stops within the first has ended only where both end at once.
  · cases p' with
    | done a =>
      refine .inr ⟨a, acts, [], u, (List.append_nil _).symm, within, ?_⟩
      rw [show f a = atEnd out from e.symm]
      exact .here _ _
    | unfinished =>
      cases out with
      | none => exact .inl ⟨rfl, within⟩
      | some b => exact nomatch e
    | _ => cases out <;> exact nomatch e
  · exact .inr both

/-- The end of a workflow after one that finishes. -/
theorem of_finishes_bind_end {f : α → Workflow I β} {out : Option β} (finishes : p.Finishes)
    (h : Course id (p.bind f) t acts (atEnd out) u) :
    ∃ a as bs v, acts = as ++ bs ∧ Course id p t as (.done a) v ∧
      Course id (f a) v bs (atEnd out) u := by
  rcases of_bind_end h with ⟨_, h⟩ | both
  · exact absurd rfl (finishes.not_unfinished h)
  · exact both

/-- The end of a stretch after one that cannot fail and finishes. -/
theorem of_lift_bind_end {w : Workflow I α} {f : α → ExceptT ε (Workflow I) β}
    {out : Option (Except ε β)} (finishes : w.Finishes)
    (h : Course id (ExceptT.lift w >>= f).run t acts (atEnd out) u) :
    ∃ a as bs v, acts = as ++ bs ∧ Course id w t as (.done a) v ∧
      Course id (f a).run v bs (atEnd out) u := by
  rw [run_lift_bind] at h
  exact of_finishes_bind_end finishes h

/-- The end of a stretch after one that may fail: without a result, with the failure of the first, or
as the second ends. -/
theorem of_except_bind_end {x : ExceptT ε (Workflow I) α} {f : α → ExceptT ε (Workflow I) β}
    {out : Option (Except ε β)} (h : Course id (x >>= f).run t acts (atEnd out) u) :
    (out = none ∧ Course id x.run t acts .unfinished u) ∨
      (∃ e, out = some (.error e) ∧ Course id x.run t acts (.done (.error e)) u) ∨
      ∃ a as bs v, acts = as ++ bs ∧ Course id x.run t as (.done (.ok a)) v ∧
        Course id (f a).run v bs (atEnd out) u := by
  rw [run_bind] at h
  rcases of_bind_end h with unfinished | ⟨outcome, as, bs, v, rfl, first, second⟩
  · exact .inl unfinished
  · cases outcome with
    | ok a => exact .inr (.inr ⟨a, as, bs, v, rfl, first, second⟩)
    -- After a failure nothing more is done.
    | error e =>
      obtain ⟨rfl, same, rfl⟩ := second.of_done
      rw [List.append_nil]
      exact .inr (.inl ⟨e, atEnd_eq_done same, first⟩)

end Course

end CertifiedCalls
