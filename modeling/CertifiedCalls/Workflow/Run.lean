import CertifiedCalls.Workflow.World

/-! # Running a workflow alone
A workflow that runs alone never waits for another: a claim on the shared key is granted whenever the
key is not known. -/

namespace CertifiedCalls.Workflow

variable {I : Interface} {σ α : Type}

/-- **Runs** a workflow in a world, which gives the world afterwards and the result, if it has one. -/
def run (env : Environment I σ) (w : World I σ) : Workflow I α → World I σ × Option α
  | .done a => (w, some a)
  | .unfinished => (w, none)
  | .emit e next => run env (w.note 0 (.said e)) next
  | .clock next => run env w (next w.now)
  | .sleep nanos next => run env { w with now := w.now + nanos } next
  | .request r limit next =>
    let s := env w.state w.now r
    let d := w.delivery r limit s
    run env ({ w.afterAsking 0 r s.state with now := d.time }.note 0 d.what) (next d.answer)
  | .claim _ next =>
    match w.key with
    | some key => run env w (next (.known key))
    | none => run env w (next .granted)
  | .publish key next => run env { w with key := some key } next
  | .release next => run env w next

/-- Runs workflows one after the other, which gives the world afterwards, and when and with what
result each of them ended. -/
def runInTurn (env : Environment I σ) (w : World I σ) :
    List (Workflow I α) → World I σ × List (Nat × Option α)
  | [] => (w, [])
  | p :: rest =>
    let (w, result) := p.run env w
    let (last, results) := runInTurn env w rest
    (last, (w.now, result) :: results)

/-- Running one workflow after another is running the second in the world that the first leaves. -/
theorem run_bind {β : Type} (env : Environment I σ) (w : World I σ) (p : Workflow I α)
    (f : α → Workflow I β) :
    (p.bind f).run env w =
      match p.run env w with
      | (w, some a) => (f a).run env w
      | (w, none) => (w, none) := by
  induction p generalizing w with
  | done _ | unfinished => rfl
  | emit _ _ ih | sleep _ _ ih | publish _ _ ih | release _ ih => exact ih _
  | clock _ ih => exact ih _ _
  | request _ _ _ ih => exact ih _ _
  | claim _ _ ih =>
    simp only [bind, run]
    split <;> exact ih _ _

end CertifiedCalls.Workflow
