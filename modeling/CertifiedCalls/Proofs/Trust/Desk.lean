import CertifiedCalls.Proofs.Trust.Phases
import CertifiedCalls.Workflow.Pool
import Mathlib.Logic.Function.Basic

/-! # What sessions share
The sessions of one key share a **desk**: the log, the key, and the queue for it. A desk is **sound**
for the phases that its sessions are in when its log is trusted and shows what the phases say: who
fetches the key, with which fetch under way, and which certificates are at hand. Each move of the
session that is at work keeps it sound. -/

namespace CertifiedCalls

/-- A **desk**: what the sessions of one key share. -/
structure Desk where
  /-- What has happened there, the latest first. -/
  log : List (Entry platform)
  /-- The key, once it is known. -/
  key : Option Bytes
  /-- The queue for the key. -/
  keys : KeyQueue

/-- An entry of a log at rest is allowed when it needs no key, and ends no fetch but the one under
way. -/
theorem AtRest.allowed {configured : Option Bytes} {log : List (Entry platform)} {e : Entry platform}
    (rest : AtRest configured log) (fetch : ∀ number, e.what ≠ .asked number .rootKey)
    (verify : ∀ number c key target, e.what ≠ .asked number (.openCertificate c key target))
    (ends : ∀ number, e.what.landed? = some number →
      flights log = [number] ∧ keyIn configured log = none) : Allowed configured log e where
  fetch number asked := absurd asked (fetch number)
  verify number c key target asked := absurd asked (verify number c key target)
  ends := ends
  announce presses := absurd presses rest.quiet
  ask said earlier split presses := absurd presses (rest.asked said earlier split)
  use fetched earlier split brought := absurd (rest.used fetched earlier split) brought

namespace PlatformRequest

/-- What **ends** a request: its answer, or giving it up. -/
def ending (number : Nat) (r : PlatformRequest) : Option (platform.Answer r) → Happening platform
  | some answer => .answered number r answer
  | none => .abandoned number r

variable {r : PlatformRequest}

/-- What ends another request than that for the key leaves the fetches that are under way. -/
theorem flightsAfter_ending (other : r ≠ .rootKey) (number : Nat)
    (answer : Option (platform.Answer r)) (before : List Nat) :
    (r.ending number answer).flightsAfter before = before := by
  cases r with
  | rootKey => exact absurd rfl other
  | _ => cases answer <;> rfl

/-- It brings no key. -/
theorem fetched?_ending (other : r ≠ .rootKey) (number : Nat) (answer : Option (platform.Answer r)) :
    (r.ending number answer).fetched? = none := by
  cases r with
  | rootKey => exact absurd rfl other
  | _ => cases answer <;> rfl

/-- It ends no fetch. -/
theorem landed?_ending (other : r ≠ .rootKey) (number : Nat) (answer : Option (platform.Answer r)) :
    (r.ending number answer).landed? = none := by
  cases r with
  | rootKey => exact absurd rfl other
  | _ => cases answer <;> rfl

/-- The certificate that it brings is the one at hand. -/
theorem handAfter_ending (other : r ≠ .rootKey) (number : Nat)
    (answer : Option (platform.Answer r)) (before : Option Bytes) :
    (r.ending number answer).handAfter before = (r.ending number answer).certificate? := by
  cases r with
  | rootKey => exact absurd rfl other
  | _ => cases answer <;> rfl

end PlatformRequest

namespace Phase

/-- The certificate that a session in a phase has at hand. -/
def certificate? : Phase → Option Bytes
  | .idle | .failed => none
  | .holding c | .told c _ | .granted c | .announced c | .asking c _ | .fetched c _ => some c

/-- The fetch that is under way in a phase. -/
def flight? : Phase → Option Nat
  | .asking _ number => some number
  | _ => none

/-- The key that has been fetched in a phase and is not known to others yet. -/
def key? : Phase → Option Bytes
  | .fetched _ key => some key
  | _ => none

/-- The phase while the answer to a request is awaited. -/
def pending (certificate : Bytes) (number : Nat) : PlatformRequest → Phase
  | .rootKey => .asking certificate number
  | _ => .idle

/-- Other answers than that to the fetch are awaited in the first phase. -/
theorem pending_of_ne {r : PlatformRequest} (other : r ≠ .rootKey) (c : Bytes) (number : Nat) :
    pending c number r = .idle := by
  cases r with
  | rootKey => exact absurd rfl other
  | _ => rfl

/-- They lead to the first phase or bring a certificate. -/
theorem answered_of_ne {r : PlatformRequest} (other : r ≠ .rootKey) (c : Bytes) (number : Nat)
    (answer : Option (platform.Answer r)) :
    answered c r answer = (r.ending number answer).certificate?.elim .idle .holding := by
  cases r with
  | rootKey => exact absurd rfl other
  | _ => cases answer <;> rfl

/-- Only a session that has announced it asks for the key. -/
theorem announced_of_asks {c : Bytes} {phase : Phase} (asks : phase.Asks c .rootKey) :
    phase = .announced c := by
  cases phase with
  | announced c' => exact congrArg _ asks
  | _ => exact asks.elim

/-- Only a session that has been told the key opens a certificate. -/
theorem told_of_asks {c certificate key : Bytes} {target : CanisterId} {phase : Phase}
    (asks : phase.Asks c (.openCertificate certificate key target)) :
    phase = .told certificate key := by
  cases phase with
  | told c' key' => rw [asks.1, asks.2]
  | _ => exact asks.elim

/-- All else is asked for in the first phase. -/
theorem idle_of_asks {c : Bytes} {r : PlatformRequest} {phase : Phase} (asks : phase.Asks c r)
    (fetch : r ≠ .rootKey) (verify : ∀ certificate key target,
      r ≠ .openCertificate certificate key target) : phase = .idle := by
  cases r with
  | rootKey => exact absurd rfl fetch
  | openCertificate certificate key target => exact absurd rfl (verify certificate key target)
  | _ =>
    cases phase with
    | idle => rfl
    | _ => exact asks.elim

/-- Whether the certificate of a session may have to press for the key. -/
def Pressing : Phase → Prop
  | .holding _ | .granted _ => True
  | _ => False

/-- Whether a session has said that it fetches the key, and has not done so yet. -/
def Announced : Phase → Prop
  | .announced _ => True
  | _ => False

/-- Whether a session may have fetched the key last, to open its certificate next. -/
def Opening : Phase → Prop
  | .fetched _ _ | .told _ _ => True
  | _ => False

/-- Whether nothing has to follow at once in a phase. -/
def Quiet : Phase → Prop
  | .idle | .asking _ _ | .failed => True
  | _ => False

end Phase

namespace Desk

variable {configured : Option Bytes} {line : List Nat} {active : Option Nat} {phase : Nat → Phase}
  {d : Desk}

/-- The phase of the session that is the one to fetch the key. -/
def held (phase : Nat → Phase) (d : Desk) : Phase := d.keys.holder.elim .idle phase

/-- How the sessions that wait in line are **queued** for the key. -/
inductive Queued (line : List Nat) (phase : Nat → Phase) (d : Desk) : Prop
  /-- The key is known, and nobody has to wait. -/
  | known (known : d.key ≠ none) (free : d.keys = .free)
  /-- One session fetches the key, or nobody wants it. -/
  | kept (unknown : d.key = none) (inLine : d.keys.waiting = line)
    (taken : line ≠ [] → d.keys.holder ≠ none)
    (fetching : ∀ i, d.keys.holder = some i → (phase i).Fetching)
  /-- It is the turn of the first in line. -/
  | passed (first : Nat) (unknown : d.key = none) (turn : d.keys.holder = some first)
    (inLine : line = first :: d.keys.waiting)

/-- A desk is **sound** for sessions in their phases, of which some wait in line and one may be at
work. -/
structure Sound (configured : Option Bytes) (line : List Nat) (active : Option Nat)
    (phase : Nat → Phase) (d : Desk) : Prop where
  /-- The log is trusted. -/
  trusted : Trusted configured d.log
  /-- Only the session that holds the queue fetches the key. -/
  holder : ∀ i, (phase i).Fetching → d.keys.holder = some i
  /-- The certificates of the phases are at hand. -/
  hands : ∀ i c, (phase i).certificate? = some c → inHand i d.log = some c
  /-- The keys of the phases are the one that is known. -/
  told : ∀ i c key, phase i = .told c key → d.key = some key
  /-- The fetch that is under way is that of the session that holds the queue. -/
  flying : flights d.log = (held phase d).flight?.toList
  /-- The key of the log is known, or that session has just fetched it. -/
  known : keyIn configured d.log = d.key.or (held phase d).key?
  /-- The line is as the queue says. -/
  queued : Queued line phase d
  /-- Those in line have certificates to open. -/
  lined : ∀ i ∈ line, ∃ c, phase i = .holding c
  /-- The session at work is not in line. -/
  apart : ∀ i, active = some i → i ∉ line
  /-- The others are where they may leave the turn to it. -/
  resting : ∀ i, active ≠ some i → (phase i).Resting
  /-- A certificate that presses belongs to the session at work. -/
  presses : Presses configured d.log →
    ∃ i, active = some i ∧ d.log.head?.map Entry.caller = some i ∧ (phase i).Pressing
  /-- So does one that has been announced. -/
  announced : ∀ said earlier, d.log = said :: earlier → Presses configured earlier →
    active = some said.caller ∧ (phase said.caller).Announced
  /-- So does one for which the key has just been fetched. -/
  opening : ∀ fetched earlier, d.log = fetched :: earlier → fetched.what.fetched? ≠ none →
    active = some fetched.caller ∧ (phase fetched.caller).Opening

/-- The line stays queued when the session that fetches the key goes on doing so. -/
theorem Queued.update {id : Nat} {after : Phase} (queued : Queued line phase d)
    (still : (phase id).Fetching → after.Fetching) :
    Queued line (Function.update phase id after) d := by
  cases queued with
  | known known free => exact .known known free
  | kept unknown inLine taken fetches =>
    refine .kept unknown inLine taken ((Function.forall_update_iff phase fun i phase =>
      d.keys.holder = some i → phase.Fetching).mpr ⟨fun holds => still (fetches id holds), ?_⟩)
    exact fun i _ => fetches i
  | passed first unknown turn inLine => exact .passed first unknown turn inLine

namespace Sound

/-- A session that fetches the key holds the queue. -/
theorem held_of_fetching (sound : Sound configured line active phase d) {i : Nat}
    (fetching : (phase i).Fetching) : held phase d = phase i := by
  rw [held, sound.holder i fetching]
  rfl

/-- The session at work holds the queue only if it fetches the key. -/
theorem holder_ne {id : Nat} (sound : Sound configured line (some id) phase d)
    (other : ¬ (phase id).Fetching) : d.keys.holder ≠ some id := by
  intro holds
  cases sound.queued with
  | known _ free => simp [free, KeyQueue.free] at holds
  | kept _ _ _ fetching => exact other (fetching id holds)
  | passed first _ turn inLine =>
    obtain rfl := Option.some.inj (turn.symm.trans holds)
    exact sound.apart first rfl (inLine ▸ List.mem_cons_self)

/-- While one session fetches the key, it is not known. -/
theorem unknown (sound : Sound configured line active phase d) {i : Nat}
    (fetching : (phase i).Fetching) : d.key = none := by
  cases sound.queued with
  | known _ free => simpa [free, KeyQueue.free] using sound.holder i fetching
  | kept unknown _ _ _ => exact unknown
  | passed _ unknown _ _ => exact unknown

/-- When one session fetches the key and is at work, the line is as it was when it began. -/
theorem kept {id : Nat} (sound : Sound configured line (some id) phase d)
    (fetching : (phase id).Fetching) : d.keys.waiting = line := by
  cases sound.queued with
  | known _ free => simpa [free, KeyQueue.free] using sound.holder id fetching
  | kept _ inLine _ _ => exact inLine
  | passed first _ turn inLine =>
    obtain rfl := Option.some.inj (turn.symm.trans (sound.holder id fetching))
    exact absurd (inLine ▸ List.mem_cons_self) (sound.apart first rfl)

/-- No certificate presses unless the session at work has one to fetch the key for. -/
theorem not_presses {id : Nat} (sound : Sound configured line (some id) phase d)
    (quiet : ¬ (phase id).Pressing) : ¬ Presses configured d.log := by
  intro presses
  obtain ⟨i, same, _, pressing⟩ := sound.presses presses
  exact quiet (Option.some.inj same ▸ pressing)

/-- None has been announced unless the session at work has announced it. -/
theorem not_announced {id : Nat} (sound : Sound configured line (some id) phase d)
    (quiet : ¬ (phase id).Announced) (said : Entry platform) (earlier : List (Entry platform))
    (split : d.log = said :: earlier) : ¬ Presses configured earlier := by
  intro presses
  obtain ⟨same, announced⟩ := sound.announced said earlier split presses
  exact quiet (Option.some.inj same ▸ announced)

/-- No key has just been fetched unless the session at work has fetched it. -/
theorem not_opening {id : Nat} (sound : Sound configured line (some id) phase d)
    (quiet : ¬ (phase id).Opening) (fetched : Entry platform) (earlier : List (Entry platform))
    (split : d.log = fetched :: earlier) : fetched.what.fetched? = none := by
  cases brought : fetched.what.fetched? with
  | none => rfl
  | some key =>
    obtain ⟨same, opening⟩ := sound.opening fetched earlier split (by simp [brought])
    exact absurd (Option.some.inj same ▸ opening) quiet

/-- The log is at rest when nothing has to follow at once in the phase of the session at work. -/
theorem atRest {id : Nat} (sound : Sound configured line (some id) phase d)
    (quiet : (phase id).Quiet) : AtRest configured d.log := by
  refine ⟨sound.not_presses ?_, sound.not_announced ?_, sound.not_opening ?_⟩ <;>
    cases at_phase : phase id <;> rw [at_phase] at quiet <;>
    first | exact not_false | exact quiet.elim

/-- So is it when no session is at work. -/
theorem atRest_of_none (sound : Sound configured line none phase d) : AtRest configured d.log where
  quiet presses := by
    obtain ⟨i, none, _⟩ := sound.presses presses
    cases none
  asked said earlier split presses := by
    cases (sound.announced said earlier split presses).1
  used fetched earlier split := by
    by_contra brought
    cases (sound.opening fetched earlier split brought).1

/-! ### Entries -/

section Entries

variable {id : Nat} {after : Phase} {e : Entry platform}

/-- Another phase of the session that holds the queue. -/
theorem held_update (sound : Sound configured line (some id) phase d)
    (fetching : (phase id).Fetching) (after : Phase) :
    held (Function.update phase id after) d = after := by
  rw [held, sound.holder id fetching]
  exact Function.update_self id after phase

/-- Another phase of another session. -/
theorem held_update_of_ne (phase : Nat → Phase) (other : d.keys.holder ≠ some id) (after : Phase) :
    held (Function.update phase id after) d = held phase d := by
  rw [held, held]
  cases holder : d.keys.holder with
  | none => rfl
  | some i => exact Function.update_of_ne (fun same => other (holder ▸ congrArg some same)) after phase

/-- Another phase of a session that fetches the key only if it did so before. -/
theorem holder_update (sound : Sound configured line active phase d)
    (before : after.Fetching → (phase id).Fetching) :
    ∀ i, (Function.update phase id after i).Fetching → d.keys.holder = some i :=
  (Function.forall_update_iff phase fun i phase => phase.Fetching → d.keys.holder = some i).mpr
    ⟨fun fetches => sound.holder id (before fetches), fun i _ => sound.holder i⟩

/-- What sessions have been told is the key, also in another phase of one of them. -/
theorem told_update {key : Option Bytes} (here : ∀ c k, after = .told c k → key = some k)
    (others : ∀ i c k, phase i = .told c k → key = some k) :
    ∀ i c k, Function.update phase id after i = .told c k → key = some k :=
  (Function.forall_update_iff phase fun _ phase => ∀ c k, phase = .told c k → key = some k).mpr
    ⟨here, fun i _ => others i⟩

/-- **An allowed entry** of the session at work keeps a desk sound. -/
theorem note (sound : Sound configured line (some id) phase d) (mine : e.caller = id)
    (allowed : Allowed configured d.log e) (fetching : after.Fetching ↔ (phase id).Fetching)
    (hand : ∀ c, after.certificate? = some c → e.what.handAfter (inHand id d.log) = some c)
    (told : ∀ c key, after ≠ .told c key)
    (flying : e.what.flightsAfter (held phase d).flight?.toList
      = (held (Function.update phase id after) d).flight?.toList)
    (known : (held phase d).key?.or e.what.fetched?
      = (held (Function.update phase id after) d).key?)
    (presses : e.what.certificate? ≠ none → after.Pressing)
    (announced : Presses configured d.log → after.Announced)
    (opening : e.what.fetched? ≠ none → after.Opening) :
    Sound configured line (some id) (Function.update phase id after)
      { d with log := e :: d.log } where
  trusted := ⟨sound.trusted, allowed⟩
  holder := sound.holder_update fetching.mp
  hands := by
    refine (Function.forall_update_iff phase fun i phase => ∀ c, phase.certificate? = some c →
      inHand i (e :: d.log) = some c).mpr ⟨fun c here => ?_, fun i other c here => ?_⟩
    · rw [inHand_cons_self id e d.log mine]
      exact hand c here
    · rw [inHand_cons_of_ne i e d.log fun same => other (same.symm.trans mine)]
      exact sound.hands i c here
  told := told_update (fun c key here => absurd here (told c key)) sound.told
  flying := by
    rw [flights, sound.flying]
    exact flying
  known := by
    rw [keyIn, sound.known, Option.or_assoc, known]
    rfl
  queued := by
    cases sound.queued.update fetching.mpr with
    | known known free => exact .known known free
    | kept unknown inLine taken fetches => exact .kept unknown inLine taken fetches
    | passed first unknown turn inLine => exact .passed first unknown turn inLine
  lined i mem := by
    have ne : i ≠ id := fun same => sound.apart id rfl (same ▸ mem)
    rw [Function.update_of_ne ne]
    exact sound.lined i mem
  apart := sound.apart
  resting i other := by
    rw [Function.update_of_ne fun same => other (congrArg some same.symm)]
    exact sound.resting i other
  presses h := by
    refine ⟨id, rfl, congrArg some mine, ?_⟩
    rw [Function.update_self]
    exact presses h.1
  announced said earlier split h := by
    obtain ⟨rfl, rfl⟩ := List.cons.inj split
    rw [mine, Function.update_self]
    exact ⟨rfl, announced h⟩
  opening fetched earlier split brought := by
    obtain ⟨rfl, rfl⟩ := List.cons.inj split
    rw [mine, Function.update_self]
    exact ⟨rfl, opening brought⟩

/-- An entry that has nothing to do with the key, of a session that does not fetch it. -/
theorem aside (sound : Sound configured line (some id) phase d) (mine : e.caller = id)
    (allowed : Allowed configured d.log e) (other : ¬ (phase id).Fetching)
    (still : ¬ after.Fetching)
    (hand : ∀ c, after.certificate? = some c → e.what.handAfter (inHand id d.log) = some c)
    (told : ∀ c key, after ≠ .told c key)
    (flying : ∀ before, e.what.flightsAfter before = before) (once : e.what.fetched? = none)
    (presses : e.what.certificate? ≠ none → after.Pressing) (quiet : ¬ Presses configured d.log) :
    Sound configured line (some id) (Function.update phase id after)
      { d with log := e :: d.log } := by
  have same := held_update_of_ne phase (sound.holder_ne other) after
  refine sound.note mine allowed (iff_of_false still other) hand told ?_ ?_ presses
    (fun h => absurd h quiet) fun brought => absurd once brought
  · rw [same, flying]
  · rw [same, once, Option.or_none]

/-- An event in the first phase. -/
theorem say (sound : Sound configured line (some id) phase d) (idle : phase id = .idle)
    (time : Nat) (event : Event) :
    Sound configured line (some id) (Function.update phase id .idle)
      { d with log := ⟨time, id, .said event⟩ :: d.log } := by
  have rest : AtRest configured d.log :=
    sound.atRest (by rw [idle]; trivial)
  exact sound.aside rfl (rest.allowed nofun nofun nofun)
    (by rw [idle]; exact not_false) not_false nofun nofun (fun _ => rfl) rfl
    (fun ne => absurd rfl ne) rest.quiet

/-- The event of fetching the key. -/
theorem announce (sound : Sound configured line (some id) phase d) {c : Bytes}
    (granted : phase id = .granted c) (time : Nat) :
    Sound configured line (some id) (Function.update phase id (.announced c))
      { d with log := ⟨time, id, .said Call.rootKeyEvent⟩ :: d.log } := by
  have fetching : (phase id).Fetching := by rw [granted]; trivial
  have before := sound.held_of_fetching fetching
  have after := sound.held_update fetching (.announced c)
  have asked := sound.not_announced (by rw [granted]; exact not_false)
  have used := sound.not_opening (by rw [granted]; exact not_false)
  refine sound.note rfl ⟨nofun, nofun, nofun, fun h => ?_,
    fun said earlier split h => absurd h (asked said earlier split),
    fun fetched earlier split brought => absurd (used fetched earlier split) brought⟩
    (iff_of_true trivial fetching) (fun c' here => ?_) nofun ?_ ?_ (fun ne => absurd rfl ne)
    (fun _ => trivial) fun brought => absurd rfl brought
  · obtain ⟨i, same, head, _⟩ := sound.presses h
    exact ⟨head.trans same.symm, rfl⟩
  · rw [Happening.handAfter, if_pos rfl]
    exact sound.hands id c' (by rw [granted]; exact here)
  · rw [before, after, granted]
    rfl
  · rw [before, after, granted]
    rfl

/-- The request for the key. -/
theorem ask_fetch (sound : Sound configured line (some id) phase d) {c : Bytes}
    (announced : phase id = .announced c) (time number : Nat) :
    Sound configured line (some id) (Function.update phase id (.asking c number))
      { d with log := ⟨time, id, .asked number .rootKey⟩ :: d.log } := by
  have fetching : (phase id).Fetching := by rw [announced]; trivial
  have before := sound.held_of_fetching fetching
  have after := sound.held_update fetching (.asking c number)
  have quiet := sound.not_presses (by rw [announced]; exact not_false)
  have used := sound.not_opening (by rw [announced]; exact not_false)
  have hand : inHand id d.log = some c := sound.hands id c (by rw [announced]; rfl)
  have allowed : Allowed configured d.log ⟨time, id, .asked number .rootKey⟩ := by
    refine ⟨fun _ _ => ⟨?_, ?_, c, hand⟩, nofun, nofun, fun presses => absurd presses quiet,
      fun said earlier split presses => ?_,
      fun fetched earlier split brought => absurd (used fetched earlier split) brought⟩
    · rw [sound.known, sound.unknown fetching, before, announced]
      rfl
    · rw [sound.flying, before, announced]
      rfl
    · obtain ⟨same, _⟩ := sound.announced said earlier split presses
      exact ⟨Option.some.inj same, number, rfl⟩
  refine sound.note rfl allowed (iff_of_true trivial fetching) (fun c' here => here ▸ hand) nofun
    ?_ ?_ (fun ne => absurd rfl ne) (fun presses => absurd presses quiet)
    fun brought => absurd rfl brought
  · rw [before, after, announced]
    rfl
  · rw [before, after, announced]
    rfl

/-- The opening of a certificate. -/
theorem ask_opening (sound : Sound configured line (some id) phase d) {c key : Bytes}
    (told : phase id = .told c key) (time number : Nat) (target : CanisterId) :
    Sound configured line (some id) (Function.update phase id .idle)
      { d with log := ⟨time, id, .asked number (.openCertificate c key target)⟩ :: d.log } := by
  have quiet := sound.not_presses (by rw [told]; exact not_false)
  have asked := sound.not_announced (by rw [told]; exact not_false)
  have known : keyIn configured d.log = some key := by
    rw [sound.known, sound.told id c key told]
    rfl
  have hand : inHand id d.log = some c := sound.hands id c (by rw [told]; rfl)
  have allowed : Allowed configured d.log
      ⟨time, id, .asked number (.openCertificate c key target)⟩ := by
    refine ⟨nofun, ?_, nofun, fun presses => absurd presses quiet,
      fun said earlier split presses => absurd presses (asked said earlier split),
      fun fetched earlier split brought => ?_⟩
    · rintro _ _ _ _ ⟨⟩
      exact ⟨known, hand⟩
    · obtain ⟨same, _⟩ := sound.opening fetched earlier split brought
      exact ⟨Option.some.inj same, number, c, key, target, rfl⟩
  exact sound.aside rfl allowed (by rw [told]; exact not_false) not_false nofun nofun
    (fun _ => rfl) rfl (fun ne => absurd rfl ne) quiet

/-- **A request in its phase.** -/
theorem ask (sound : Sound configured line (some id) phase d) {c : Bytes} {r : PlatformRequest}
    (asks : (phase id).Asks c r) (time number : Nat) :
    Sound configured line (some id) (Function.update phase id (.pending c number r))
      { d with log := ⟨time, id, .asked number r⟩ :: d.log } := by
  cases r with
  | rootKey => exact sound.ask_fetch (Phase.announced_of_asks asks) time number
  | openCertificate certificate key target =>
    exact sound.ask_opening (Phase.told_of_asks asks) time number target
  | _ =>
    have idle : phase id = .idle := Phase.idle_of_asks asks nofun nofun
    have rest : AtRest configured d.log := sound.atRest (by rw [idle]; trivial)
    exact sound.aside rfl (rest.allowed nofun nofun nofun) (by rw [idle]; exact not_false) not_false
      nofun nofun (fun _ => rfl) rfl (fun ne => absurd rfl ne) rest.quiet

/-- The end of the fetch. -/
theorem settle_fetch (sound : Sound configured line (some id) phase d) {c : Bytes} {number : Nat}
    (asking : phase id = .asking c number) (time : Nat) (answer : Option (platform.Answer .rootKey)) :
    Sound configured line (some id) (Function.update phase id (.answered c .rootKey answer))
      { d with log := ⟨time, id, PlatformRequest.rootKey.ending number answer⟩ :: d.log } := by
  have fetching : (phase id).Fetching := by rw [asking]; trivial
  have before := sound.held_of_fetching fetching
  have after := sound.held_update fetching (.answered c .rootKey answer)
  have rest : AtRest configured d.log := sound.atRest (by rw [asking]; trivial)
  have unknown : keyIn configured d.log = none := by
    rw [sound.known, sound.unknown fetching, before, asking]
    rfl
  have flying : flights d.log = [number] := by
    rw [sound.flying, before, asking]
    rfl
  have hand : inHand id d.log = some c := sound.hands id c (by rw [asking]; rfl)
  have landed : [number].erase number = [] := List.erase_cons_head number []
  have allowed : Allowed configured d.log
      ⟨time, id, PlatformRequest.rootKey.ending number answer⟩ := by
    refine rest.allowed ?_ ?_ fun number' ends => ⟨?_, unknown⟩
    · cases answer <;> exact nofun
    · cases answer <;> exact nofun
    · have same : number = number' := by cases answer <;> exact Option.some.inj ends
      exact same ▸ flying
  rw [asking] at before
  -- With the key the certificate stays at hand; without it the fetch has failed.
  match answer, allowed, after with
  | some (.ok key), allowed, after =>
    refine sound.note rfl allowed (iff_of_true trivial fetching) (fun c' here => here ▸ hand) nofun
      ?_ ?_ (fun ne => absurd rfl ne) (fun presses => absurd presses rest.quiet) fun _ => trivial
    · rw [before, after]
      exact landed
    · rw [before, after]
      rfl
  | some (.error _), allowed, after | none, allowed, after =>
    refine sound.note rfl allowed (iff_of_true trivial fetching) nofun nofun ?_ ?_
      (fun ne => absurd rfl ne) (fun presses => absurd presses rest.quiet)
      fun brought => absurd rfl brought
    · rw [before, after]
      exact landed
    · rw [before, after]
      rfl

/-- The end of a request. -/
theorem settle (sound : Sound configured line (some id) phase d) {c : Bytes} {number : Nat}
    {r : PlatformRequest} (pending : phase id = .pending c number r) (time : Nat)
    (answer : Option (platform.Answer r)) :
    Sound configured line (some id) (Function.update phase id (.answered c r answer))
      { d with log := ⟨time, id, r.ending number answer⟩ :: d.log } := by
  by_cases fetch : r = .rootKey
  · subst fetch
    exact sound.settle_fetch pending time answer
  · have idle : phase id = .idle := pending.trans (Phase.pending_of_ne fetch c number)
    have rest : AtRest configured d.log :=
      sound.atRest (by rw [idle]; trivial)
    have hand := PlatformRequest.handAfter_ending fetch number answer (inHand id d.log)
    have once := PlatformRequest.fetched?_ending fetch number answer
    have flying := PlatformRequest.flightsAfter_ending fetch number answer
    have allowed : Allowed configured d.log ⟨time, id, r.ending number answer⟩ :=
      rest.allowed (by cases answer <;> exact nofun) (by cases answer <;> exact nofun)
        fun _ landed => absurd (landed.symm.trans
          (PlatformRequest.landed?_ending fetch number answer)) (Option.some_ne_none _)
    rw [Phase.answered_of_ne fetch c number answer]
    -- It may have brought a certificate.
    cases brought : (r.ending number answer).certificate? with
    | none =>
      exact sound.aside rfl allowed (by rw [idle]; exact not_false) not_false nofun nofun flying
        once (fun ne => absurd brought ne) rest.quiet
    | some certificate =>
      refine sound.aside rfl allowed (by rw [idle]; exact not_false) not_false (fun c' here => ?_)
        nofun flying once (fun _ => trivial) rest.quiet
      exact (hand.trans brought).trans here

end Entries

end Sound

end Desk

end CertifiedCalls
