import CertifiedCalls.Bytes
import CertifiedCalls.Event

/-! # Workflows
A **workflow** is what a caller does over time: it records events, looks at the clock, sleeps, and
makes requests of an **interface**. Callers share one key, which is fetched at most once: a caller
that needs it claims it and is either told what it is or becomes the one who fetches it. Requests
and claims may carry a limit, a time at which they are given up. -/

namespace CertifiedCalls

/-- An **interface**: the requests that can be made, and what each is answered with. -/
structure Interface where
  /-- The requests. -/
  Request : Type
  /-- The answers to a request. -/
  Answer : Request → Type

/-- How a **claim** on the shared key ends. -/
inductive Claim where
  /-- The key is known. -/
  | known (key : Bytes)
  /-- It is not known, and the caller is the one to fetch it. -/
  | granted
  /-- The limit passed before either. -/
  | lapsed
deriving DecidableEq, Repr

/-- A **workflow** over an interface. -/
inductive Workflow (I : Interface) (α : Type) where
  /-- It has a result. -/
  | done (result : α)
  /-- It has given up without a result. -/
  | unfinished
  /-- It records an event. -/
  | emit (event : Event) (next : Workflow I α)
  /-- It looks at the clock. -/
  | clock (next : Nat → Workflow I α)
  /-- It sleeps. -/
  | sleep (nanos : Nat) (next : Workflow I α)
  /-- It makes a request, and goes on with the answer or, at the limit, without one. -/
  | request (r : I.Request) (limit : Option Nat) (next : Option (I.Answer r) → Workflow I α)
  /-- It claims the shared key. -/
  | claim (limit : Option Nat) (next : Claim → Workflow I α)
  /-- It makes the shared key known. -/
  | publish (key : Bytes) (next : Workflow I α)
  /-- It gives up fetching the shared key, which others may then do. -/
  | release (next : Workflow I α)

namespace Workflow

variable {I J : Interface} {α β γ : Type}

/-- One workflow after another. -/
def bind (p : Workflow I α) (f : α → Workflow I β) : Workflow I β :=
  match p with
  | .done a => f a
  | .unfinished => .unfinished
  | .emit e next => .emit e (next.bind f)
  | .clock next => .clock fun now => (next now).bind f
  | .sleep nanos next => .sleep nanos (next.bind f)
  | .request r limit next => .request r limit fun a => (next a).bind f
  | .claim limit next => .claim limit fun c => (next c).bind f
  | .publish key next => .publish key (next.bind f)
  | .release next => .release (next.bind f)

instance : Monad (Workflow I) where
  pure := .done
  bind := bind

/-- Records an event. -/
def say (e : Event) : Workflow I Unit := .emit e (.done ())

/-- The time. -/
def now : Workflow I Nat := .clock .done

/-- Sleeps. -/
def pause (nanos : Nat) : Workflow I Unit := .sleep nanos (.done ())

/-- Makes a request and waits for the answer as long as it takes. -/
def ask (r : I.Request) : Workflow I (I.Answer r) :=
  .request r none fun a => a.elim .unfinished .done

/-- Makes a request and waits for the answer up to a limit. -/
def askWithin (limit : Option Nat) (r : I.Request) : Workflow I (Option (I.Answer r)) :=
  .request r limit .done

/-- Claims the shared key. -/
def claimKey (limit : Option Nat) : Workflow I Claim := .claim limit .done

/-- Makes the shared key known. -/
def publishKey (key : Bytes) : Workflow I Unit := .publish key (.done ())

/-- Leaves it to others to fetch the shared key. -/
def releaseKey : Workflow I Unit := .release (.done ())

/-- The workflow over another interface that makes every request by a workflow of its own. -/
def through (serve : (r : I.Request) → Workflow J (I.Answer r)) : Workflow I α → Workflow J α
  | .done a => .done a
  | .unfinished => .unfinished
  | .emit e next => .emit e (through serve next)
  | .clock next => .clock fun now => through serve (next now)
  | .sleep nanos next => .sleep nanos (through serve next)
  | .request r _ next => (serve r).bind fun a => through serve (next (some a))
  | .claim limit next => .claim limit fun c => through serve (next c)
  | .publish key next => .publish key (through serve next)
  | .release next => .release (through serve next)

@[simp] theorem done_bind (a : α) (f : α → Workflow I β) : (Workflow.done a).bind f = f a := rfl

/-- Doing nothing afterwards changes nothing. -/
@[simp] theorem bind_done (p : Workflow I α) : p.bind .done = p := by
  induction p with
  | done _ | unfinished => rfl
  | emit _ _ ih | sleep _ _ ih | publish _ _ ih | release _ ih => simp [bind, ih]
  | clock _ ih | request _ _ _ ih | claim _ _ ih => simp [bind, ih]

/-- How workflows are put in brackets does not matter. -/
theorem bind_assoc (p : Workflow I α) (f : α → Workflow I β) (g : β → Workflow I γ) :
    (p.bind f).bind g = p.bind fun a => (f a).bind g := by
  induction p with
  | done _ | unfinished => rfl
  | emit _ _ ih | sleep _ _ ih | publish _ _ ih | release _ ih => simp [bind, ih]
  | clock _ ih | request _ _ _ ih | claim _ _ ih => simp [bind, ih]

end Workflow

end CertifiedCalls
