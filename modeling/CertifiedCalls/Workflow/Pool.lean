import CertifiedCalls.Workflow.World

/-! # Running workflows side by side
A **pool** runs workflows side by side, so many at a time, in the order in which they are given. One
of them runs until it has to wait; then the next that is ready does. Time passes only when none is
ready, up to the moment at which one that waits can go on; those that go on at the same moment do so
in the order in which they began to wait.

The shared key is fetched by one workflow at a time. The others that claim it meanwhile wait in line:
all go on when the key becomes known, and the first of them when the fetch has failed. One whose limit
comes first makes its claim once more when it is its turn to run. Only if there is still no key then,
and the fetch has not been handed to it, does it give its claim up and leave the line.

`Pool.run` lets those that are ready run in their order. What may happen at all is wider: of those that
are ready at one moment, any may run first (`Pool.Reaches`). -/

namespace CertifiedCalls

/-- Who fetches the shared key, and who waits for it in line. -/
structure KeyQueue where
  /-- The workflow that fetches the key. -/
  holder : Option Nat
  /-- The workflows that wait for it, the first in line first. -/
  waiting : List Nat
deriving DecidableEq, Repr

/-- Nobody fetches the key or waits for it. -/
def KeyQueue.free : KeyQueue := ⟨none, []⟩

/-- The queue after the fetch has failed: the first in line takes over. -/
def KeyQueue.passOn (q : KeyQueue) : KeyQueue := ⟨q.waiting.head?, q.waiting.tail⟩

/-- The queue after a workflow has left the line. -/
def KeyQueue.leave (q : KeyQueue) (id : Nat) : KeyQueue := { q with waiting := q.waiting.erase id }

/-- A workflow that **waits**. -/
inductive Waiting (I : Interface) (α : Type) where
  /-- It goes on at a time, when something may happen to it first. -/
  | until (time : Nat) (what : Option (Happening I)) (next : Workflow I α)
  /-- It goes on when its claim on the shared key ends. -/
  | inLine (limit : Option Nat) (next : Claim → Workflow I α)

/-- Why a workflow stops running. -/
inductive Stop (I : Interface) (α : Type) where
  /-- It has ended, with a result or without one. -/
  | ended (result : Option α)
  /-- It waits. -/
  | waits (w : Waiting I α)

/-- A workflow that is ready to go on. -/
structure Ready (I : Interface) (α : Type) where
  /-- Which workflow it is. -/
  id : Nat
  /-- What happens to it first. -/
  what : Option (Happening I)
  /-- How it goes on. -/
  workflow : Workflow I α

/-- A workflow that has ended. -/
structure Ended (α : Type) where
  /-- Which workflow it was. -/
  id : Nat
  /-- When it ended. -/
  time : Nat
  /-- Its result, if it has one. -/
  result : Option α

/-- A **pool** of workflows. -/
structure Pool (I : Interface) (σ α : Type) where
  /-- The world they run in. -/
  world : World I σ
  /-- The queue for the shared key. -/
  keys : KeyQueue
  /-- Those that can go on, the next first. -/
  ready : List (Ready I α)
  /-- Those that wait, in the order in which they began to. -/
  waiting : List (Nat × Waiting I α)
  /-- Those that have not been started, the next first. -/
  queued : List (Ready I α)
  /-- Those that have ended, the latest first. -/
  ended : List (Ended α)

namespace Pool

variable {I : Interface} {σ α : Type}

/-- Runs a workflow until it ends or has to wait. -/
def advance (env : Environment I σ) (id : Nat) (w : World I σ) (q : KeyQueue) :
    Workflow I α → World I σ × KeyQueue × Stop I α
  | .done a => (w, q, .ended (some a))
  | .unfinished => (w, q, .ended none)
  | .emit e next => advance env id (w.note id (.said e)) q next
  | .clock next => advance env id w q (next w.now)
  | .sleep nanos next =>
    if nanos = 0 then advance env id w q next
    else (w, q, .waits (.until (w.now + nanos) none next))
  | .request r limit next =>
    let s := env w.state w.now r
    let d := w.delivery r limit s
    let after := w.afterAsking id r s.state
    if d.time ≤ w.now then advance env id (after.note id d.what) q (next d.answer)
    else (after, q, .waits (.until d.time (some d.what) (next d.answer)))
  | .claim limit next =>
    match w.key with
    | some key => advance env id w q (next (.known key))
    | none =>
      if q.holder.all (· = id) then advance env id w { q with holder := some id } (next .granted)
      else if limit.any (· ≤ w.now) then advance env id w (q.leave id) (next .lapsed)
      else (w, { q with waiting := q.waiting ++ [id] }, .waits (.inLine limit next))
  | .publish key next => advance env id { w with key := some key } .free next
  | .release next => advance env id w q.passOn next

/-- When a waiting workflow goes on, if nothing happens before. -/
def timeOf : Waiting I α → Option Nat
  | .until time _ _ => some time
  | .inLine limit _ => limit

/-- A workflow that waits in line, once the key is known or it is its turn to fetch it. -/
def called (key : Option Bytes) (holder : Option Nat) (id : Nat) : Waiting I α → Option (Ready I α)
  | .until _ _ _ => none
  | .inLine _ next =>
    match key with
    | some key => some ⟨id, none, next (.known key)⟩
    | none => if holder = some id then some ⟨id, none, next .granted⟩ else none

/-- A waiting workflow whose time has come. One in line keeps its place while it makes its claim once
more. -/
def due (time id : Nat) (w : Waiting I α) : Option (Ready I α) :=
  if timeOf w = some time then
    match w with
    | .until _ what next => some ⟨id, what, next⟩
    | .inLine limit next => some ⟨id, none, .claim limit next⟩
  else none

/-- Makes those waiting workflows ready that a test finds able to go on. -/
def wake (p : Pool I σ α) (test : Nat → Waiting I α → Option (Ready I α)) : Pool I σ α :=
  { p with
    ready := p.ready ++ p.waiting.filterMap fun (id, w) => test id w
    waiting := p.waiting.filter fun (id, w) => (test id w).isNone }

/-- Calls those out of the line for the shared key whose claims have ended. -/
def callOut (p : Pool I σ α) : Pool I σ α := p.wake (called p.world.key p.keys.holder)

/-- Starts the next workflow, if there is one left. -/
def startNext (p : Pool I σ α) : Pool I σ α :=
  match p.queued with
  | [] => p
  | next :: rest => { p with ready := p.ready ++ [next], queued := rest }

/-- Drops all workflows that have not ended. -/
def drop (p : Pool I σ α) : Pool I σ α :=
  { p with keys := .free, ready := [], waiting := [], queued := [] }

/-- The earliest time at which a waiting workflow goes on. -/
def nextTime (p : Pool I σ α) : Option Nat := (p.waiting.filterMap fun (_, w) => timeOf w).min?

/-- Lets time pass and makes those ready whose time has come. -/
def pass (time : Nat) (p : Pool I σ α) : Pool I σ α :=
  { p with world := { p.world with now := time } }.wake (due time)

/-- Runs one workflow that is ready. One whose result is final ends the pool. -/
def runNext (env : Environment I σ) (isFinal : α → Bool) (task : Ready I α) (p : Pool I σ α) :
    Pool I σ α :=
  let world := task.what.elim p.world (p.world.note task.id)
  let (world, keys, stop) := advance env task.id world p.keys task.workflow
  let p := { p with world, keys }
  match stop with
  | .waits w => { p with waiting := p.waiting ++ [(task.id, w)] }.callOut
  | .ended result =>
    let p := { p with ended := ⟨task.id, world.now, result⟩ :: p.ended }
    if result.any isFinal then p.drop else p.callOut.startNext

/-- One **step** of a pool, or `none` when there is nothing left to do. -/
def step (env : Environment I σ) (isFinal : α → Bool) (p : Pool I σ α) : Option (Pool I σ α) :=
  match p.ready with
  | task :: rest => some (runNext env isFinal task { p with ready := rest })
  | [] => p.nextTime.map fun time => p.pass time

/-- **Runs** a pool for at most so many steps. -/
def run (env : Environment I σ) (isFinal : α → Bool) : Nat → Pool I σ α → Pool I σ α
  | 0, p => p
  | steps + 1, p =>
    match p.step env isFinal with
    | some p => run env isFinal steps p
    | none => p

/-- What a pool may **reach**, when of those that are ready any may run first. -/
inductive Reaches (env : Environment I σ) (isFinal : α → Bool) (p : Pool I σ α) : Pool I σ α → Prop
  /-- It has not gone on yet. -/
  | refl : Reaches env isFinal p p
  /-- It goes on by one step, with those that are ready in some order. -/
  | step {q q' : Pool I σ α} {order : List (Ready I α)} (before : Reaches env isFinal p q)
    (perm : q.ready.Perm order) (next : { q with ready := order }.step env isFinal = some q') :
    Reaches env isFinal p q'

/-- A run is one of the ways in which a pool may go on. -/
theorem reaches_run (env : Environment I σ) (isFinal : α → Bool) (p : Pool I σ α) (steps : Nat) :
    Reaches env isFinal p (p.run env isFinal steps) := by
  have onward (steps : Nat) (q : Pool I σ α) (before : Reaches env isFinal p q) :
      Reaches env isFinal p (q.run env isFinal steps) := by
    induction steps generalizing q with
    | zero => exact before
    | succ steps ih =>
      rw [run]
      cases next : q.step env isFinal with
      | none => exact before
      | some q' => exact ih q' (before.step (.refl _) next)
  exact onward steps p .refl

/-- A pool of workflows of which so many run at a time. -/
def start (world : World I σ) (limit : Nat) (workflows : List (Workflow I α)) : Pool I σ α :=
  let tasks := workflows.zipIdx.map fun (workflow, id) => ⟨id, none, workflow⟩
  ⟨world, .free, tasks.take limit, [], tasks.drop limit, []⟩

/-- How a workflow of a pool ended. -/
def ended? (p : Pool I σ α) (id : Nat) : Option (Ended α) := p.ended.find? fun e => e.id == id

/-- Runs workflows all at once for at most so many steps, which gives the world afterwards, and when
and with what result each of them ended. -/
def runAtOnce (env : Environment I σ) (steps : Nat) (w : World I σ) (workflows : List (Workflow I α)) :
    World I σ × List (Nat × Option α) :=
  let p := (start w workflows.length workflows).run env (fun _ => false) steps
  (p.world, (List.range workflows.length).map fun id =>
    ((p.ended? id).elim 0 Ended.time, (p.ended? id).bind Ended.result))

end Pool

end CertifiedCalls
