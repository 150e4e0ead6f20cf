import CertifiedCalls.Workflow.Basic

/-! # Worlds
A **world** is what workflows run in: a clock, an environment that answers requests and may take its
time over each, the shared key, and the record of what has happened. An answer that would come after
the limit of its request is given up at the limit; one that comes at the limit is in time, and one
that takes no time always is. Time passes in requests and pauses only: a computation takes none, and
who pauses goes on exactly when the time asked for is over. -/

namespace CertifiedCalls

/-- What can **happen** in a world. -/
inductive Happening (I : Interface) where
  /-- An event was recorded. -/
  | said (event : Event)
  /-- A request was made. -/
  | asked (number : Nat) (r : I.Request)
  /-- A request was answered. -/
  | answered (number : Nat) (r : I.Request) (answer : I.Answer r)
  /-- A request was given up. -/
  | abandoned (number : Nat) (r : I.Request)

/-- An **entry** of the record. -/
structure Entry (I : Interface) where
  /-- When it happened. -/
  time : Nat
  /-- Which of the workflows that run side by side it happened to. -/
  caller : Nat
  /-- What happened. -/
  what : Happening I

/-- What an environment makes of a request. -/
structure Served (σ α : Type) where
  /-- The state it is in from then on. -/
  state : σ
  /-- How long it takes over the answer. -/
  delay : Nat
  /-- The answer. -/
  answer : α

/-- An **environment**: how requests are answered, given a state and the time. -/
abbrev Environment (I : Interface) (σ : Type) :=
  σ → Nat → (r : I.Request) → Served σ (I.Answer r)

/-- A **world**. -/
structure World (I : Interface) (σ : Type) where
  /-- The time in nanoseconds. -/
  now : Nat
  /-- The state of the environment. -/
  state : σ
  /-- The shared key, once it is known. -/
  key : Option Bytes
  /-- How many requests have been made. -/
  asked : Nat
  /-- What has happened, the latest first. -/
  past : List (Entry I)

/-- The end of a request. -/
structure Delivery (I : Interface) (r : I.Request) where
  /-- When it ends. -/
  time : Nat
  /-- What happens then. -/
  what : Happening I
  /-- The answer, if it comes. -/
  answer : Option (I.Answer r)

/-- Whether something that takes so long is done by a limit. -/
def isInTime (now delay : Nat) (limit : Option Nat) : Bool :=
  delay == 0 || limit.all (now + delay ≤ ·)

/-- When something is given up. -/
def lapseTime (now : Nat) (limit : Option Nat) : Nat := max now (limit.getD now)

namespace World

variable {I : Interface} {σ : Type}

/-- A world in which nothing has happened yet. -/
def start (state : σ) (key : Option Bytes) : World I σ := ⟨0, state, key, 0, []⟩

/-- Records what happens now. -/
def note (w : World I σ) (caller : Nat) (what : Happening I) : World I σ :=
  { w with past := ⟨w.now, caller, what⟩ :: w.past }

/-- What has happened, in order. -/
def record (w : World I σ) : List (Entry I) := w.past.reverse

/-- The end of a request that is made now, given what the environment makes of it. -/
def delivery (w : World I σ) (r : I.Request) (limit : Option Nat) (s : Served σ (I.Answer r)) :
    Delivery I r :=
  if isInTime w.now s.delay limit then
    ⟨w.now + s.delay, .answered w.asked r s.answer, some s.answer⟩
  else ⟨lapseTime w.now limit, .abandoned w.asked r, none⟩

/-- The world after a request has been made. -/
def afterAsking (w : World I σ) (caller : Nat) (r : I.Request) (state : σ) : World I σ :=
  { w.note caller (.asked w.asked r) with state := state, asked := w.asked + 1 }

end World

/-- The events of a record. -/
def eventsOf {I : Interface} (record : List (Entry I)) : List Event :=
  record.filterMap fun entry =>
    match entry.what with
    | .said e => some e
    | _ => none

/-- The course of one **request**. -/
structure RequestRun (I : Interface) where
  /-- The request. -/
  request : I.Request
  /-- Who made it. -/
  caller : Nat
  /-- When it was made. -/
  asked : Nat
  /-- When it was answered, if it was. -/
  answered : Option Nat

/-- When the request of a number is answered in a record. -/
def answeredAt {I : Interface} (record : List (Entry I)) (number : Nat) : Option Nat :=
  record.findSome? fun entry =>
    match entry.what with
    | .answered n _ _ => if n = number then some entry.time else none
    | _ => none

/-- The courses of the requests of a record, in the order in which they were made. -/
def requestsOf {I : Interface} : List (Entry I) → List (RequestRun I)
  | [] => []
  | entry :: rest =>
    match entry.what with
    | .asked number r => ⟨r, entry.caller, entry.time, answeredAt rest number⟩ :: requestsOf rest
    | _ => requestsOf rest

end CertifiedCalls
