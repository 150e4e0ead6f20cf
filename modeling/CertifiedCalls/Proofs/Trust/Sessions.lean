import CertifiedCalls.Proofs.Trust.Turns
import CertifiedCalls.Workflow.Run

/-! # Sessions at a desk
A session that obeys the phases keeps the desk sound while it is at work, up to where it ends or has
to wait (`Desk.Sound.advance`), and so does one that runs alone from its beginning to its end
(`Desk.Sound.run`). -/

namespace CertifiedCalls

open Workflow (Obeys endsIdle)

variable {σ α : Type}

/-- A world **shows** a desk on top of what happened before. -/
structure Desk.Shown (d : Desk) (base : List (Entry platform)) (w : World platform σ) : Prop where
  /-- What has happened since is in the log. -/
  past : w.past = d.log ++ base
  /-- The key is that of the desk. -/
  key : w.key = d.key

/-- What happens now is put on the log. -/
theorem Desk.Shown.note {d : Desk} {base : List (Entry platform)} {w : World platform σ}
    (shown : d.Shown base w) (id : Nat) (what : Happening platform) :
    Desk.Shown { d with log := ⟨w.now, id, what⟩ :: d.log } base (w.note id what) :=
  ⟨congrArg _ shown.past, shown.key⟩

/-- What a delivery records is what ends its request. -/
theorem World.what_delivery (w : World platform σ) (r : PlatformRequest) (limit : Option Nat)
    (s : Served σ (platform.Answer r)) :
    (w.delivery r limit s).what = r.ending w.asked (w.delivery r limit s).answer := by
  rw [World.delivery]
  split <;> rfl

/-- What has happened since in a world is **secured**: it is a trusted log at rest, after which the
key is the one that the world knows. -/
structure World.Secured (configured : Option Bytes) (base : List (Entry platform))
    (w : World platform σ) (log : List (Entry platform)) : Prop where
  /-- It is the log. -/
  past : w.past = log ++ base
  /-- The log is trusted. -/
  trusted : Trusted configured log
  /-- It is at rest. -/
  rest : AtRest configured log
  /-- The key is known. -/
  key : keyIn configured log = w.key

namespace Phase

/-- What is left of a session **fits** its phase, given what happens to it first. -/
def Fits (phase : Phase) : Option (Happening platform) → Workflow platform α → Prop
  | none, p => p.Obeys endsIdle phase
  | some what, p => ∃ c number r answer, what = PlatformRequest.ending number r answer ∧
    phase = .pending c number r ∧ p.Obeys endsIdle (.answered c r answer)

/-- What a session waits for **fits** its phase: a time at which it goes on, in the first phase
unless it has made a request, or the end of its claim. -/
def Awaits (phase : Phase) : Waiting platform α → Prop
  | .until _ what next => phase.Fits what next ∧ (what = none → phase = .idle)
  | .inLine _ next => ∃ c, phase = .holding c ∧
    ∀ outcome, (next outcome).Obeys endsIdle (.woken (some outcome) (.holding c))

end Phase

/-- A session that waits for a time is in the first phase, or its fetch is under way. -/
theorem Phase.idle_or_asking_of_awaits {phase : Phase} {time : Nat}
    {what : Option (Happening platform)} {next : Workflow platform α}
    (awaits : phase.Awaits (.until time what next)) :
    phase = .idle ∨ ∃ c number, phase = .asking c number := by
  obtain ⟨fits, idle⟩ := awaits
  cases what with
  | none => exact .inl (idle rfl)
  | some what =>
    obtain ⟨c, number, r, answer, _, pending, _⟩ := fits
    cases r with
    | rootKey => exact .inr ⟨c, number, pending⟩
    | _ => exact .inl pending

/-- A session that waits is not the one to make the fetch. -/
theorem Phase.ne_granted_of_awaits {phase : Phase} {w : Waiting platform α} (awaits : phase.Awaits w)
    (c : Bytes) : phase ≠ .granted c := by
  rintro rfl
  cases w with
  | «until» time what next =>
    obtain idle | ⟨c', number, asking⟩ := idle_or_asking_of_awaits awaits
    · cases idle
    · cases asking
  | inLine limit next =>
    obtain ⟨c', holding, _⟩ := awaits
    cases holding

/-- However its claim ends, a session that claims the key goes on in the phase that the end leads to. -/
theorem Phase.obeys_of_claim {phase : Phase} {limit : Option Nat} {next : Claim → Workflow platform α}
    (obeys : (Workflow.claim limit next).Obeys endsIdle phase) :
    ∃ c, phase = .holding c ∧
      ∀ outcome, (next outcome).Obeys endsIdle (.woken (some outcome) (.holding c)) := by
  obtain ⟨c, holding, known, granted, lapsed⟩ := obeys
  refine ⟨c, holding, fun outcome => ?_⟩
  cases outcome with
  | known key => exact known key
  | granted => exact granted
  | lapsed => exact lapsed

namespace Desk

variable {configured : Option Bytes} {base : List (Entry platform)} {line : List Nat}
  {phase : Nat → Phase} {d : Desk} {id : Nat}

/-- The sessions in line after one has begun to wait. -/
def lineWith (line : List Nat) (id : Nat) : Stop platform α → List Nat
  | .waits (.inLine _ _) => line ++ [id]
  | _ => line

/-- Nobody is in line twice after that. -/
theorem nodup_lineWith (distinct : line.Nodup) (aside : id ∉ line) (stop : Stop platform α) :
    (lineWith line id stop).Nodup := by
  cases stop with
  | ended result => exact distinct
  | waits w =>
    cases w with
    | «until» time what next => exact distinct
    | inLine limit next =>
      refine List.nodup_append.mpr ⟨distinct, List.pairwise_singleton _ id, fun i mem j here => ?_⟩
      rw [List.mem_singleton.mp here]
      exact fun same => aside (same ▸ mem)

/-- Who is in line after that was so before or has joined it. -/
theorem mem_lineWith (line : List Nat) (id : Nat) (w : Waiting platform α) (i : Nat) :
    i ∈ lineWith line id (.waits w) ↔
      i ∈ line ∨ ∃ limit next, (i, .inLine limit next) ∈ [(id, w)] := by
  cases w with
  | «until» time what next => simp [lineWith]
  | inLine limit next => simp [lineWith]

/-- Why a session stops fits its phase. -/
def Stops (phase : Phase) : Stop platform α → Prop
  | .ended _ => phase = .idle
  | .waits w => phase.Awaits w

/-- A session has **left** its turn: the desk is sound, and all that has changed is its own phase. -/
def Left (configured : Option Bytes) (base : List (Entry platform)) (line : List Nat)
    (phase : Nat → Phase) (id : Nat) (stopped : World platform σ × KeyQueue × Stop platform α) :
    Prop :=
  ∃ after d, Sound configured (lineWith line id stopped.2.2) none (Function.update phase id after) d ∧
    d.Shown base stopped.1 ∧ stopped.2.1 = d.keys ∧ Stops after stopped.2.2

/-- What a session leaves does not depend on the phase in which it began. -/
theorem Left.of_update {before : Phase} {stopped : World platform σ × KeyQueue × Stop platform α}
    (h : Left configured base line (Function.update phase id before) id stopped) :
    Left configured base line phase id stopped := by
  obtain ⟨after, d, sound, rest⟩ := h
  rw [Function.update_idem] at sound
  exact ⟨after, d, sound, rest⟩

/-- What is left of a session obeys the phases from the one that it is in now. -/
theorem obeys_update_self {p : Workflow platform α} {after : Phase} (obeys : p.Obeys endsIdle after) :
    p.Obeys endsIdle (Function.update phase id after id) := by
  rw [Function.update_self]
  exact obeys

/-- A desk at which nothing has happened is sound. -/
theorem sound_start (key : Option Bytes) :
    Sound key [] none (fun _ => .idle) ⟨[], key, .free⟩ where
  trusted := trivial
  holder := nofun
  hands := nofun
  told := nofun
  flying := rfl
  known := (Option.or_none).symm
  queued := by
    cases key with
    | none => exact .kept rfl rfl (fun ne => absurd rfl ne) nofun
    | some key => exact .known nofun rfl
  lined := List.forall_mem_nil _
  apart := nofun
  resting _ _ := trivial
  presses := nofun
  announced := nofun
  opening := nofun

namespace Sound

/-- At a sound desk where no session is at work, what has happened is secured. -/
theorem secured (sound : Sound configured line none phase d) {w : World platform σ}
    (shown : d.Shown base w) : w.Secured configured base d.log where
  past := shown.past
  trusted := sound.trusted
  rest := sound.atRest_of_none
  key := by
    have none : (held phase d).key? = none := by
      rw [held]
      cases d.keys.holder with
      | none => rfl
      | some i =>
        have rests := sound.resting i (Option.some_ne_none i).symm
        show (phase i).key? = none
        cases at_phase : phase i with
        | fetched c key => exact (at_phase ▸ rests).elim
        | _ => rfl
    rw [sound.known, none, Option.or_none, shown.key]

/-- **A session that obeys the phases keeps the desk sound** until it stops. -/
theorem advance (env : Environment platform σ) {p : Workflow platform α} {w : World platform σ}
    (sound : Sound configured line (some id) phase d) (obeys : p.Obeys endsIdle (phase id))
    (shown : d.Shown base w) :
    Left configured base line phase id (Pool.advance env id w d.keys p) := by
  induction p generalizing phase d w with
  | done a =>
    have idle : phase id = .idle := obeys
    refine ⟨phase id, d, ?_, shown, rfl, idle⟩
    rw [Function.update_eq_self]
    exact sound.leave (idle ▸ trivial) (idle ▸ trivial)
  | unfinished =>
    have idle : phase id = .idle := obeys
    refine ⟨phase id, d, ?_, shown, rfl, idle⟩
    rw [Function.update_eq_self]
    exact sound.leave (idle ▸ trivial) (idle ▸ trivial)
  | emit e next ih =>
    rcases obeys with ⟨idle, rest⟩ | ⟨c, granted, rfl, rest⟩
    · exact (ih (sound.say idle w.now e) (obeys_update_self rest) (shown.note id _)).of_update
    · exact (ih (sound.announce granted w.now) (obeys_update_self rest) (shown.note id _)).of_update
  | clock next ih => exact ih w.now sound (obeys w.now) shown
  | sleep nanos next ih =>
    obtain ⟨idle, rest⟩ := obeys
    rw [Pool.advance]
    by_cases zero : nanos = 0
    · rw [if_pos zero]
      exact ih sound (idle ▸ rest) shown
    · rw [if_neg zero]
      refine ⟨phase id, d, ?_, shown, rfl, idle ▸ rest, fun _ => idle⟩
      rw [Function.update_eq_self]
      exact sound.leave (idle ▸ trivial) (idle ▸ trivial)
  | request r limit next ih =>
    obtain ⟨c, asks, rest⟩ := obeys
    rw [Pool.advance]
    have asked := sound.ask asks w.now w.asked
    have asks_shown : Shown { d with log := ⟨w.now, id, .asked w.asked r⟩ :: d.log } base
        (w.afterAsking id r (env w.state w.now r).state) := ⟨(shown.note id _).past, shown.key⟩
    simp only
    by_cases now : (w.delivery r limit (env w.state w.now r)).time ≤ w.now
    · rw [if_pos now]
      rw [World.what_delivery]
      have settled := asked.settle (Function.update_self id _ phase) w.now
        (w.delivery r limit (env w.state w.now r)).answer
      rw [Function.update_idem] at settled
      exact (ih _ settled (obeys_update_self (rest _)) (asks_shown.note id _)).of_update
    -- The answer comes later, and the session waits for it.
    · rw [if_neg now]
      refine ⟨.pending c w.asked r, _, asked.leave ?_ ?_, asks_shown, rfl,
        ⟨c, w.asked, r, _, World.what_delivery w r limit _, rfl, rest _⟩, nofun⟩
      · rw [Function.update_self]
        cases r <;> trivial
      · rw [Function.update_self]
        cases r <;> trivial
  | claim limit next ih =>
    obtain ⟨c, holding, obeys⟩ := Phase.obeys_of_claim obeys
    rw [Pool.advance]
    cases key : w.key with
    | some key' =>
      have told := sound.tell holding (shown.key.symm.trans key)
      exact (ih _ told (obeys_update_self (obeys (.known key'))) shown).of_update
    | none =>
      have unknown : d.key = none := shown.key.symm.trans key
      simp only
      cases holds : d.keys.holder with
      | none =>
        exact (ih _ (sound.grant holding unknown holds) (obeys_update_self (obeys .granted))
          ⟨shown.past, shown.key⟩).of_update
      | some other =>
        have ne : other ≠ id := fun same =>
          sound.holder_ne (by rw [holding]; exact not_false) (same ▸ holds)
        rw [if_neg (by simpa using ne)]
        by_cases late : limit.any (· ≤ w.now) = true
        · rw [if_pos late, sound.leave_of_not_mem (sound.apart id rfl)]
          exact (ih _ (sound.lapse holding holds) (obeys_update_self (obeys .lapsed)) shown).of_update
        · rw [if_neg late, ← holds]
          refine ⟨phase id, ⟨d.log, d.key, { d.keys with waiting := d.keys.waiting ++ [id] }⟩, ?_,
            ⟨shown.past, shown.key⟩, rfl, c, holding, obeys⟩
          rw [Function.update_eq_self]
          exact sound.join holding unknown holds
  | publish key next ih =>
    obtain ⟨c, fetched, rest⟩ := obeys
    exact (ih (w := { w with key := some key }) (sound.publish fetched) (obeys_update_self rest)
      ⟨shown.past, rfl⟩).of_update
  | release next ih =>
    obtain ⟨failed, rest⟩ := obeys
    exact (ih (sound.release failed) (obeys_update_self rest) ⟨shown.past, shown.key⟩).of_update

/-- A session in line that makes its claim once more at the limit goes on with the answer to it. -/
theorem advance_answer (env : Environment platform σ) {w : World platform σ}
    (sound : Sound configured line none phase d) (distinct : line.Nodup) (mem : id ∈ line)
    (shown : d.Shown base w) {l : Nat} (late : l ≤ w.now) (next : Claim → Workflow platform α) :
    Pool.advance env id w d.keys (.claim (some l) next)
      = Pool.advance env id w (d.keys.leave id) (next (d.answer id)) := by
  cases called : d.call id with
  | some outcome =>
    -- The desk has an answer: the key is known, or it is the session's turn.
    rw [sound.leave_of_call distinct mem called, Desk.answer, called, Pool.advance]
    rw [call] at called
    cases key : d.key with
    | some key' =>
      rw [key] at called
      obtain rfl := Option.some.inj called
      rw [shown.key.trans key]
      rfl
    | none =>
      rw [key] at called
      rw [shown.key.trans key]
      simp only at called ⊢
      split at called
      · rename_i turn
        obtain rfl := Option.some.inj called
        rw [if_pos (by simp [turn]), ← turn]
        rfl
      · cases called
  | none =>
    have unknown : d.key = none := by
      cases key : d.key with
      | none => rfl
      | some key' => simp [call, key] at called
    -- While one session is in line, another is to fetch the key.
    have taken : d.keys.holder ≠ none := by
      cases sound.queued with
      | known known _ => exact absurd unknown known
      | kept _ _ taken _ => exact taken (List.ne_nil_of_mem mem)
      | passed first _ turn _ => exact turn ▸ Option.some_ne_none first
    obtain ⟨other, holds⟩ := Option.ne_none_iff_exists'.mp taken
    have ne : other ≠ id := by
      rintro rfl
      rw [call, unknown] at called
      cases called.symm.trans (if_pos holds)
    rw [Desk.answer, called, Pool.advance, shown.key.trans unknown, holds]
    simp only
    rw [if_neg (by simpa using ne), if_pos (by simpa using late)]
    rfl

/-- Where only one session is at a desk and claims the key, nobody is to fetch it. -/
theorem nobody (sound : Sound configured [] (some id) phase d) (unknown : d.key = none)
    (alone : ∀ i, i ≠ id → phase i = .idle) (other : ¬ (phase id).Fetching) :
    d.keys.holder = none := by
  cases sound.queued with
  | known known _ => exact absurd unknown known
  | kept _ _ _ fetching =>
    cases holder : d.keys.holder with
    | none => rfl
    | some i =>
      have fetches := fetching i holder
      by_cases mine : i = id
      · exact absurd (mine ▸ fetches) other
      · rw [alone i mine] at fetches
        exact fetches.elim
  | passed _ _ _ inLine => exact nomatch inLine

/-- A session that is alone and ends in the first phase leaves all in it. -/
theorem finish (sound : Sound configured [] (some id) phase d) (idle : phase id = .idle)
    (alone : ∀ i, i ≠ id → phase i = .idle) : Sound configured [] none (fun _ => .idle) d := by
  have all : phase = fun _ => .idle := by
    funext i
    by_cases mine : i = id
    · exact mine ▸ idle
    · exact alone i mine
  exact all ▸ sound.leave (idle ▸ trivial) (idle ▸ trivial)

/-- A session that is alone stays so. -/
theorem alone_update (alone : ∀ i, i ≠ id → phase i = .idle) (after : Phase) (i : Nat)
    (other : i ≠ id) : Function.update phase id after i = .idle := by
  rw [Function.update_of_ne other]
  exact alone i other

/-- **A session that runs alone and obeys the phases keeps the desk sound** to its end. -/
theorem run (env : Environment platform σ) {p : Workflow platform α} {w : World platform σ}
    (sound : Sound configured [] (some 0) phase d) (obeys : p.Obeys endsIdle (phase 0))
    (alone : ∀ i, i ≠ 0 → phase i = .idle) (shown : d.Shown base w) :
    ∃ d, Sound configured [] none (fun _ => .idle) d ∧ d.Shown base (p.run env w).1 := by
  induction p generalizing phase d w with
  | done a => exact ⟨d, sound.finish obeys alone, shown⟩
  | unfinished => exact ⟨d, sound.finish obeys alone, shown⟩
  | emit e next ih =>
    rcases obeys with ⟨idle, rest⟩ | ⟨c, granted, rfl, rest⟩
    · exact ih (sound.say idle w.now e) (obeys_update_self rest) (alone_update alone _)
        (shown.note 0 _)
    · exact ih (sound.announce granted w.now) (obeys_update_self rest) (alone_update alone _)
        (shown.note 0 _)
  | clock next ih => exact ih w.now sound (obeys w.now) alone shown
  | sleep nanos next ih =>
    obtain ⟨idle, rest⟩ := obeys
    exact ih sound (idle ▸ rest) alone ⟨shown.past, shown.key⟩
  | request r limit next ih =>
    obtain ⟨c, asks, rest⟩ := obeys
    have asks_shown : Shown { d with log := ⟨w.now, 0, .asked w.asked r⟩ :: d.log } base
        { w.afterAsking 0 r (env w.state w.now r).state with
          now := (w.delivery r limit (env w.state w.now r)).time } :=
      ⟨(shown.note 0 _).past, shown.key⟩
    have settled := (sound.ask asks w.now w.asked).settle (Function.update_self 0 _ phase)
      (w.delivery r limit (env w.state w.now r)).time
      (w.delivery r limit (env w.state w.now r)).answer
    rw [Function.update_idem] at settled
    rw [Workflow.run, World.what_delivery]
    exact ih _ settled (obeys_update_self (rest _)) (alone_update alone _) (asks_shown.note 0 _)
  | claim limit next ih =>
    obtain ⟨c, holding, known, granted, _⟩ := obeys
    rw [Workflow.run]
    cases key : w.key with
    | some key' =>
      have told := sound.tell holding (shown.key.symm.trans key)
      exact ih _ told (obeys_update_self (known key')) (alone_update alone _) shown
    | none =>
      have unknown : d.key = none := shown.key.symm.trans key
      have free := sound.nobody unknown alone (by rw [holding]; exact not_false)
      exact ih _ (sound.grant holding unknown free) (obeys_update_self granted)
        (alone_update alone _) ⟨shown.past, shown.key⟩
  | publish key next ih =>
    obtain ⟨c, fetched, rest⟩ := obeys
    exact ih (w := { w with key := some key }) (sound.publish fetched) (obeys_update_self rest)
      (alone_update alone _) ⟨shown.past, rfl⟩
  | release next ih =>
    obtain ⟨failed, rest⟩ := obeys
    exact ih (sound.release failed) (obeys_update_self rest) (alone_update alone _)
      ⟨shown.past, shown.key⟩

end Sound

end Desk

/-- **A session that runs alone and obeys the phases** leaves a secured log. -/
theorem Workflow.secured_run (env : Environment platform σ) (w : World platform σ)
    {p : Workflow platform α} (obeys : p.Obeys endsIdle .idle) :
    ∃ log, (p.run env w).1.Secured w.key w.past log := by
  have sound : Desk.Sound w.key [] (some 0) (fun _ => .idle) ⟨[], w.key, .free⟩ :=
    (Desk.sound_start w.key).take List.not_mem_nil
  obtain ⟨d, after, shown⟩ := sound.run env obeys (fun _ _ => rfl) ⟨rfl, rfl⟩
  exact ⟨d.log, after.secured shown⟩

end CertifiedCalls
