import CertifiedCalls.Proofs.Workflow.Course
import CertifiedCalls.Workflow.Run

/-! # What a workflow comes to
What a workflow that runs alone does next depends on the **moment** only: the time, the state of the
environment and the shared key. A workflow **comes to** a result from one moment to another when it
ends so from every world at the first; workflows one after the other come to what the second does
(`ComesTo.bind`). -/

namespace CertifiedCalls

variable {I : Interface} {σ α β ε : Type}

/-- A **moment** of a world. -/
structure Moment (σ : Type) where
  /-- The time. -/
  now : Nat
  /-- The state of the environment. -/
  state : σ
  /-- The shared key, if it is known. -/
  key : Option Bytes

/-- The moment of a world. -/
def World.moment (w : World I σ) : Moment σ := ⟨w.now, w.state, w.key⟩

/-- The moment when an answer has come that took some time and left the environment in a state. -/
def Moment.after (m : Moment σ) (delay : Nat) (state : σ) : Moment σ := ⟨m.now + delay, state, m.key⟩

/-- A workflow **comes to** a result from one moment to another, when it runs alone. -/
def ComesTo (env : Environment I σ) (m : Moment σ) (p : Workflow I α) (a : α) (m' : Moment σ) : Prop :=
  ∀ w : World I σ, w.moment = m → ∃ w', p.run env w = (w', some a) ∧ w'.moment = m'

namespace ComesTo

variable {env : Environment I σ} {m m₁ m₂ : Moment σ} {p : Workflow I α} {a : α}

/-- A workflow that has ended comes to its result. -/
theorem done (env : Environment I σ) (m : Moment σ) (a : α) : ComesTo env m (.done a) a m :=
  fun w here => ⟨w, rfl, here⟩

/-- One workflow after another comes to what the second does. -/
theorem bind {f : α → Workflow I β} {b : β} (first : ComesTo env m p a m₁)
    (second : ComesTo env m₁ (f a) b m₂) : ComesTo env m (p.bind f) b m₂ := by
  intro w here
  obtain ⟨w₁, ran, between⟩ := first w here
  obtain ⟨w₂, ran', there⟩ := second w₁ between
  refine ⟨w₂, ?_, there⟩
  rw [Workflow.run_bind, ran]
  exact ran'

/-! ### Elementary workflows -/

/-- Looking at the clock comes to the time. -/
theorem now (env : Environment I σ) (m : Moment σ) : ComesTo env m Workflow.now m.now m := by
  rintro w rfl
  exact ⟨w, rfl, rfl⟩

/-- Recording an event changes nothing. -/
theorem say (env : Environment I σ) (m : Moment σ) (e : Event) :
    ComesTo env m (Workflow.say e) () m :=
  fun w here => ⟨w.note 0 (.said e), rfl, here⟩

/-- Sleeping only takes time. -/
theorem pause (env : Environment I σ) (m : Moment σ) (nanos : Nat) :
    ComesTo env m (Workflow.pause nanos) () (m.after nanos m.state) := by
  rintro w rfl
  exact ⟨{ w with now := w.now + nanos }, rfl, rfl⟩

section Requests

variable {r : I.Request} {limit : Option Nat} {state : σ} {delay : Nat} {answer : I.Answer r}

/-- A request that is served in time is gone on from with the answer. -/
theorem request {next : Option (I.Answer r) → Workflow I α}
    (served : env m.state m.now r = ⟨state, delay, answer⟩)
    (inTime : isInTime m.now delay limit = true)
    (rest : ComesTo env (m.after delay state) (next (some answer)) a m₂) :
    ComesTo env m (.request r limit next) a m₂ := by
  rintro w rfl
  have served : env w.state w.now r = ⟨state, delay, answer⟩ := served
  have delivery : w.delivery r limit ⟨state, delay, answer⟩
      = ⟨w.now + delay, .answered w.asked r answer, some answer⟩ := if_pos inTime
  rw [Workflow.run]
  simp only [served, delivery]
  exact rest _ rfl

/-- A request that is served in time comes to the answer. -/
theorem askWithin (served : env m.state m.now r = ⟨state, delay, answer⟩)
    (inTime : isInTime m.now delay limit = true) :
    ComesTo env m (Workflow.askWithin limit r) (some answer) (m.after delay state) :=
  .request served inTime (.done env _ _)

/-- So does one without a limit that is served. -/
theorem ask (served : env m.state m.now r = ⟨state, delay, answer⟩) :
    ComesTo env m (Workflow.ask r) answer (m.after delay state) :=
  .request served (Bool.or_true _) (.done env _ _)

end Requests

/-- A claim on the shared key comes to the key where it is known. -/
theorem claimKey_of_known {key : Bytes} (known : m.key = some key) (limit : Option Nat) :
    ComesTo env m (Workflow.claimKey limit) (.known key) m := by
  rintro w rfl
  refine ⟨w, ?_, rfl⟩
  have known : w.key = some key := known
  rw [Workflow.claimKey, Workflow.run, known]
  rfl

/-- It is granted where it is not. -/
theorem claimKey_of_unknown (unknown : m.key = none) (limit : Option Nat) :
    ComesTo env m (Workflow.claimKey limit) .granted m := by
  rintro w rfl
  refine ⟨w, ?_, rfl⟩
  have unknown : w.key = none := unknown
  rw [Workflow.claimKey, Workflow.run, unknown]
  rfl

/-- Making the shared key known does so. -/
theorem publishKey (env : Environment I σ) (m : Moment σ) (key : Bytes) :
    ComesTo env m (Workflow.publishKey key) () ⟨m.now, m.state, some key⟩ := by
  rintro w rfl
  exact ⟨{ w with key := some key }, rfl, rfl⟩

/-! ### Stretches that may fail -/

/-- A stretch after one that succeeds comes to what the second does. -/
theorem run_bind {x : ExceptT ε (Workflow I) α} {f : α → ExceptT ε (Workflow I) β} {out : Except ε β}
    (first : ComesTo env m x.run (.ok a) m₁) (second : ComesTo env m₁ (f a).run out m₂) :
    ComesTo env m (x >>= f).run out m₂ := by
  rw [Course.run_bind]
  exact first.bind second

/-- A stretch after one that fails comes to the same failure. -/
theorem run_bind_error {x : ExceptT ε (Workflow I) α} {f : α → ExceptT ε (Workflow I) β} {e : ε}
    (first : ComesTo env m x.run (.error e) m₁) : ComesTo env m (x >>= f).run (.error e) m₁ := by
  rw [Course.run_bind]
  exact first.bind (.done env m₁ _)

/-- A stretch after one that cannot fail comes to what the second does. -/
theorem run_lift_bind {f : α → ExceptT ε (Workflow I) β} {out : Except ε β}
    (first : ComesTo env m p a m₁) (second : ComesTo env m₁ (f a).run out m₂) :
    ComesTo env m (ExceptT.lift p >>= f).run out m₂ := by
  rw [Course.run_lift_bind]
  exact first.bind second

end ComesTo

end CertifiedCalls
