import CertifiedCalls.Call.Update

/-! # Records of one root of trust
A **log** is a part of the record with its latest entry first. It says which root key is known
(`keyIn`), which fetches of it are under way (`flights`), and which certificate a caller has at hand,
to be opened next (`inHand`). A log is **trusted** when each of its entries is allowed by those before
it: a fetch where no key is known, none is under way and a certificate is at hand; the opening of the
certificate at hand with the key that is known; and nothing but a fetch after a certificate that
presses for one. -/

namespace CertifiedCalls

/-- The certificate that an answer brings. -/
def PlatformRequest.certificate? : (r : PlatformRequest) → platform.Answer r → Option Bytes
  | .update _ _ _, .ok ⟨_, .certified certificate⟩ => some certificate
  | .readState _ _, .ok certificate => some certificate
  | _, _ => none

namespace Happening

/-- The certificate that is **delivered**. -/
def certificate? : Happening platform → Option Bytes
  | .answered _ r answer => r.certificate? answer
  | _ => none

/-- The root key that is **fetched**. -/
def fetched? : Happening platform → Option Bytes
  | .answered _ .rootKey (.ok key) => some key
  | _ => none

/-- The fetch of the root key that **ends**, by its number. -/
def landed? : Happening platform → Option Nat
  | .answered number .rootKey _ => some number
  | .abandoned number .rootKey => some number
  | _ => none

/-- The fetches that are under way afterwards. -/
def flightsAfter (before : List Nat) : Happening platform → List Nat
  | .asked number .rootKey => number :: before
  | .answered number .rootKey _ => before.erase number
  | .abandoned number .rootKey => before.erase number
  | _ => before

/-- The certificate that is at hand afterwards. A fetch that succeeds leaves it there. -/
def handAfter (before : Option Bytes) : Happening platform → Option Bytes
  | .said e => if e = Call.rootKeyEvent then before else none
  | .asked _ .rootKey => before
  | .answered _ .rootKey (.ok _) => before
  | what => what.certificate?

end Happening

/-- The root key that is **known** after a log: the configured one, or else the first that was
fetched. -/
def keyIn (configured : Option Bytes) : List (Entry platform) → Option Bytes
  | [] => configured
  | e :: log => (keyIn configured log).or e.what.fetched?

/-- The fetches of the root key that are **under way** after a log, by their numbers. -/
def flights : List (Entry platform) → List Nat
  | [] => []
  | e :: log => e.what.flightsAfter (flights log)

/-- The certificate that a caller has **at hand** after a log. -/
def inHand (caller : Nat) : List (Entry platform) → Option Bytes
  | [] => none
  | e :: log =>
    if e.caller = caller then e.what.handAfter (inHand caller log) else inHand caller log

/-- A certificate **presses** for the root key when it has just been delivered, no key is known, and
nobody had a certificate at hand before. -/
def Presses (configured : Option Bytes) : List (Entry platform) → Prop
  | [] => False
  | e :: log => e.what.certificate? ≠ none ∧ keyIn configured log = none ∧
    ∀ caller, inHand caller log = none

/-- An entry is **allowed** by the log before it. -/
structure Allowed (configured : Option Bytes) (log : List (Entry platform)) (e : Entry platform) :
    Prop where
  /-- The root key is asked for where none is known and no fetch is under way, by a caller with a
  certificate at hand. -/
  fetch : ∀ number, e.what = .asked number .rootKey →
    keyIn configured log = none ∧ flights log = [] ∧ ∃ certificate, inHand e.caller log = some certificate
  /-- A certificate is opened by the caller who has it at hand, with the key that is known. -/
  verify : ∀ number certificate key target,
    e.what = .asked number (.openCertificate certificate key target) →
      keyIn configured log = some key ∧ inHand e.caller log = some certificate
  /-- A fetch that ends is the one that was under way, and no key was known. -/
  ends : ∀ number, e.what.landed? = some number →
    flights log = [number] ∧ keyIn configured log = none
  /-- After a certificate that presses, its caller says that it fetches the root key. -/
  announce : Presses configured log →
    log.head?.map Entry.caller = some e.caller ∧ e.what = .said Call.rootKeyEvent
  /-- After that it asks for it. -/
  ask : ∀ said earlier, log = said :: earlier → Presses configured earlier →
    e.caller = said.caller ∧ ∃ number, e.what = .asked number .rootKey
  /-- After a key has been fetched, a certificate is opened by the caller who has fetched it. -/
  use : ∀ fetched earlier, log = fetched :: earlier → fetched.what.fetched? ≠ none →
    e.caller = fetched.caller ∧
      ∃ number certificate key target, e.what = .asked number (.openCertificate certificate key target)

/-- A log is **trusted** when each of its entries is allowed by those before it. -/
def Trusted (configured : Option Bytes) : List (Entry platform) → Prop
  | [] => True
  | e :: log => Trusted configured log ∧ Allowed configured log e

/-- A log is **at rest** when nothing in it has to be followed at once. -/
structure AtRest (configured : Option Bytes) (log : List (Entry platform)) : Prop where
  /-- No certificate presses for the root key. -/
  quiet : ¬ Presses configured log
  /-- None did before the last entry. -/
  asked : ∀ said earlier, log = said :: earlier → ¬ Presses configured earlier
  /-- No key has just been fetched. -/
  used : ∀ fetched earlier, log = fetched :: earlier → fetched.what.fetched? = none

/-! ### Small laws -/

section Laws

variable {configured : Option Bytes} {e : Entry platform} {log later : List (Entry platform)}

theorem inHand_cons_self (caller : Nat) (e : Entry platform) (log : List (Entry platform))
    (mine : e.caller = caller) : inHand caller (e :: log) = e.what.handAfter (inHand caller log) :=
  if_pos mine

theorem inHand_cons_of_ne (caller : Nat) (e : Entry platform) (log : List (Entry platform))
    (other : e.caller ≠ caller) : inHand caller (e :: log) = inHand caller log :=
  if_neg other

/-- What brings a certificate brings no key. -/
theorem Happening.fetched?_of_certificate? {what : Happening platform}
    (brought : what.certificate? ≠ none) : what.fetched? = none := by
  cases what with
  | answered number r answer =>
    cases r with
    | rootKey => exact absurd rfl brought
    | _ => rfl
  | _ => rfl

/-- What brings a key ends a fetch. -/
theorem Happening.landed?_of_fetched? {what : Happening platform} {key : Bytes}
    (brought : what.fetched? = some key) : ∃ number, what.landed? = some number := by
  cases what with
  | answered number r answer =>
    cases r with
    | rootKey => exact ⟨number, rfl⟩
    | _ => exact nomatch brought
  | _ => exact nomatch brought

/-- Where a certificate presses for the key, none is known. -/
theorem keyIn_of_presses (presses : Presses configured log) : keyIn configured log = none := by
  cases log with
  | nil => exact presses.elim
  | cons e log => rw [keyIn, presses.2.1, Happening.fetched?_of_certificate? presses.1, Option.or_none]

/-- A key that is known stays known. -/
theorem keyIn_append_of_some {key : Bytes} (known : keyIn configured log = some key)
    (later : List (Entry platform)) : keyIn configured (later ++ log) = some key := by
  induction later with
  | nil => exact known
  | cons e later ih => rw [List.cons_append, keyIn, ih, Option.some_or]

/-- The key after two parts of a record is the key after the later, where that after the earlier was
known. -/
theorem keyIn_append (configured : Option Bytes) (later log : List (Entry platform)) :
    keyIn configured (later ++ log) = keyIn (keyIn configured log) later := by
  induction later with
  | nil => rfl
  | cons e later ih => rw [List.cons_append, keyIn, keyIn, ih]

/-- Each entry of a trusted log is allowed by those before it. -/
theorem Trusted.allowed (trusted : Trusted configured (later ++ e :: log)) :
    Allowed configured log e := by
  induction later with
  | nil => exact trusted.2
  | cons _ later ih => exact ih trusted.1

end Laws

end CertifiedCalls
