import CertifiedCalls.Call.Platform
import CertifiedCalls.Time.Duration
import CertifiedCalls.Value.Basic

/-! # Scripted platforms
A **script** lists the steps with which requests of each kind are answered in turn, the last step
repeating. Certificates are opened by a table. -/

namespace CertifiedCalls.Simulation

/-- The item of a number from a list that is used in turn, the last item repeating. -/
def inTurn {α : Type} (items : List α) (n : Nat) : Option α := items[min n (items.length - 1)]?

/-- A **step** of a script. -/
structure Step (α : Type) where
  /-- How long it takes. -/
  delay : Duration
  /-- What it comes to. -/
  outcome : Except TransportFailure α

/-- The step of a number. A script without steps fails. -/
def stepOf {α : Type} (script : List (Step α)) (n : Nat) : Step α :=
  (inTurn script n).getD ⟨.ofMillis 0, .error (.ofMessage "the script has no steps")⟩

/-- What a certificate holds. -/
inductive Opening where
  /-- It cannot be opened. -/
  | failure (f : TransportFailure)
  /-- A tree, perhaps for one canister only, which is given by its text. -/
  | tree (t : HashTree) (onlyFor : Option String)

/-- The **script** of a platform. -/
structure Script where
  /-- The answers to queries. -/
  queries : List (Step QueryAnswer)
  /-- The answers to updates. -/
  updates : List (Step Submission)
  /-- The answers to readings of a state. -/
  readings : List (Step Bytes)
  /-- The answers to requests for the root key. -/
  rootKeys : List (Step Bytes)
  /-- What each certificate holds. -/
  certificates : List (Bytes × Opening)
  /-- The root key that opens certificates, where only one does. -/
  expectedKey : Option Bytes

/-- How many steps of each list have been used. -/
structure Progress where
  /-- Of the answers to queries. -/
  queries : Nat
  /-- Of the answers to updates. -/
  updates : Nat
  /-- Of the answers to readings of a state. -/
  readings : Nat
  /-- Of the answers to requests for the root key. -/
  rootKeys : Nat
deriving DecidableEq, Repr

/-- No step has been used. -/
def Progress.none : Progress := ⟨0, 0, 0, 0⟩

namespace Script

/-- Opens a certificate. -/
def openCertificate (s : Script) (certificate key : Bytes) (target : CanisterId) :
    Except TransportFailure HashTree :=
  if s.expectedKey.all (· == key) then
    match s.certificates.lookup certificate with
    | some (.tree t onlyFor) =>
      if onlyFor.all (· == target.toText) then .ok t
      else .error (.ofMessage "certificate for another canister")
    | some (.failure f) => .error f
    | none => .error (.ofMessage "unknown certificate")
  else .error (.ofMessage "root key mismatch")

/-- The platform that follows a script. -/
def environment (s : Script) : Environment platform Progress := fun p _ r =>
  match r with
  | .query _ _ _ =>
    let step := stepOf s.queries p.queries
    ⟨{ p with queries := p.queries + 1 }, step.delay.nanos, step.outcome⟩
  | .update _ _ _ =>
    let step := stepOf s.updates p.updates
    ⟨{ p with updates := p.updates + 1 }, step.delay.nanos, step.outcome⟩
  | .readState _ _ =>
    let step := stepOf s.readings p.readings
    ⟨{ p with readings := p.readings + 1 }, step.delay.nanos, step.outcome⟩
  | .rootKey =>
    let step := stepOf s.rootKeys p.rootKeys
    ⟨{ p with rootKeys := p.rootKeys + 1 }, step.delay.nanos, step.outcome⟩
  | .openCertificate certificate key target =>
    ⟨p, 0, s.openCertificate certificate key target⟩

end Script

/-- The interface of a call that is attempted again and again. -/
abbrev attempts : Interface where
  Request := Unit
  Answer _ := Except TransportFailure Value

/-- The call that is answered by steps in turn. -/
def attemptsOf (script : List (Step Value)) : Environment attempts Nat := fun n _ _ =>
  ⟨n + 1, (stepOf script n).delay.nanos, (stepOf script n).outcome⟩

end CertifiedCalls.Simulation
