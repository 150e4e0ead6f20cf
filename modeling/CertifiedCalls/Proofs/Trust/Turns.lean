import CertifiedCalls.Proofs.Trust.Desk

/-! # Turns at the key
The session at work claims the key, is told what it is or becomes the one to fetch it, waits in line
or gives its claim up; having fetched the key it makes it known, and having failed it passes its turn
on. Between the turns of sessions, those that wait in line are called out of it; one that is still in
line when the limit of its claim has come is answered when its own turn comes. Each of these keeps a
desk sound. -/

namespace CertifiedCalls

/-- The phase of a session whose claim has ended, or has not. -/
def Phase.woken : Option Claim → Phase → Phase
  | some (.known key), .holding c => .told c key
  | some .granted, .holding c => .granted c
  | some .lapsed, .holding _ => .idle
  | _, phase => phase

namespace Desk

variable {configured : Option Bytes} {line : List Nat} {active : Option Nat} {phase : Nat → Phase}
  {d : Desk}

namespace Sound

section Turns

variable {id : Nat} {after : Phase} {c : Bytes}

/-- **A move at the queue** of the session at work keeps a desk sound. -/
theorem move (sound : Sound configured line (some id) phase d) {key : Option Bytes}
    {keys : KeyQueue} (quiet : ¬ (phase id).Announced)
    (holder : ∀ i, (Function.update phase id after i).Fetching → keys.holder = some i)
    (hand : ∀ c, after.certificate? = some c → (phase id).certificate? = some c)
    (told : ∀ i c k, Function.update phase id after i = .told c k → key = some k)
    (flying : (held (Function.update phase id after) ⟨d.log, key, keys⟩).flight?
      = (held phase d).flight?)
    (known : key.or (held (Function.update phase id after) ⟨d.log, key, keys⟩).key?
      = d.key.or (held phase d).key?)
    (queued : Queued line (Function.update phase id after) ⟨d.log, key, keys⟩)
    (presses : Presses configured d.log → after.Pressing)
    (opening : (phase id).Opening → after.Opening) :
    Sound configured line (some id) (Function.update phase id after) ⟨d.log, key, keys⟩ where
  trusted := sound.trusted
  holder := holder
  hands :=
    (Function.forall_update_iff phase fun i phase => ∀ c, phase.certificate? = some c →
      inHand i d.log = some c).mpr ⟨fun c here => sound.hands id c (hand c here),
        fun i _ => sound.hands i⟩
  told := told
  flying := by
    rw [flying]
    exact sound.flying
  known := by
    rw [known]
    exact sound.known
  queued := queued
  lined i mem := by
    have ne : i ≠ id := fun same => sound.apart id rfl (same ▸ mem)
    rw [Function.update_of_ne ne]
    exact sound.lined i mem
  apart := sound.apart
  resting i other := by
    rw [Function.update_of_ne fun same => other (congrArg some same.symm)]
    exact sound.resting i other
  presses h := by
    obtain ⟨i, same, head, _⟩ := sound.presses h
    refine ⟨i, same, head, ?_⟩
    rw [← Option.some.inj same, Function.update_self]
    exact presses h
  announced said earlier split h := by
    obtain ⟨same, announced⟩ := sound.announced said earlier split h
    rw [← Option.some.inj same] at announced
    exact absurd announced quiet
  opening fetched earlier split brought := by
    obtain ⟨same, opens⟩ := sound.opening fetched earlier split brought
    rw [← Option.some.inj same] at opens ⊢
    rw [Function.update_self]
    exact ⟨rfl, opening opens⟩

/-- **The key is told** to a session that claims it. -/
theorem tell (sound : Sound configured line (some id) phase d) (holding : phase id = .holding c)
    {key : Bytes} (known : d.key = some key) :
    Sound configured line (some id) (Function.update phase id (.told c key)) d := by
  have other : ¬ (phase id).Fetching := by rw [holding]; exact not_false
  have same := held_update_of_ne phase (sound.holder_ne other) (.told c key)
  refine sound.move (by rw [holding]; exact not_false) (sound.holder_update False.elim)
    (by rw [holding]; exact fun _ here => here) (told_update (fun c' k told => ?_) sound.told)
    (congrArg _ same) (congrArg (fun held => d.key.or held.key?) same)
    (sound.queued.update fun f => absurd f other) (fun presses => ?_) fun _ => trivial
  · obtain ⟨⟩ := told
    exact known
  · have unknown := keyIn_of_presses presses
    rw [sound.known, known] at unknown
    exact absurd unknown (Option.some_ne_none key)

/-- **The fetch is granted** to a session that claims the key when nobody else is to fetch it. -/
theorem grant (sound : Sound configured line (some id) phase d) (holding : phase id = .holding c)
    (unknown : d.key = none) (free : d.keys.holder = none) :
    Sound configured line (some id) (Function.update phase id (.granted c))
      ⟨d.log, d.key, { d.keys with holder := some id }⟩ := by
  have nobody (i : Nat) : ¬ (phase i).Fetching := fun fetches => by
    simpa [free] using sound.holder i fetches
  have before : held phase d = .idle := by rw [held, free]; rfl
  have after : held (Function.update phase id (.granted c))
      ⟨d.log, d.key, { d.keys with holder := some id }⟩ = .granted c :=
    Function.update_self id _ phase
  refine sound.move (by rw [holding]; exact not_false) (fun i fetches => ?_)
    (by rw [holding]; exact fun _ here => here)
    (told_update (fun _ _ told => by cases told) sound.told)
    (by rw [before, after]; rfl) (by rw [before, after]; rfl) ?_ (fun _ => trivial)
    (by rw [holding]; exact False.elim)
  · by_cases mine : i = id
    · rw [mine]
    · rw [Function.update_of_ne mine] at fetches
      exact absurd fetches (nobody i)
  · cases sound.queued with
    | known known _ => exact absurd unknown known
    | kept _ inLine _ _ =>
      refine .kept unknown inLine (fun _ => Option.some_ne_none id) fun i holds => ?_
      rw [← Option.some.inj holds, Function.update_self]
      trivial
    | passed first _ turn _ => exact absurd (turn.symm.trans free) (Option.some_ne_none first)

/-- Where another session is to fetch the key, no certificate presses for it. -/
theorem quiet_of_holder (sound : Sound configured line (some id) phase d) {other : Nat}
    (holds : d.keys.holder = some other) (ne : other ≠ id) : ¬ Presses configured d.log := by
  intro presses
  -- That session has a certificate at hand, and had it before the last entry.
  have hand : ∃ c, (phase other).certificate? = some c := by
    cases sound.queued with
    | known _ free => simp [free, KeyQueue.free] at holds
    | kept _ _ _ fetching =>
      have fetches := fetching other holds
      have rests := sound.resting other fun same => ne (Option.some.inj same).symm
      cases at_phase : phase other with
      | granted c | asking c _ => exact ⟨c, rfl⟩
      | idle | holding _ | told _ _ => exact (at_phase ▸ fetches).elim
      | announced _ | fetched _ _ | failed => exact (at_phase ▸ rests).elim
    | passed first _ turn inLine =>
      obtain rfl := Option.some.inj (turn.symm.trans holds)
      obtain ⟨c, holding⟩ := sound.lined first (inLine ▸ List.mem_cons_self)
      exact ⟨c, by rw [holding]; rfl⟩
  obtain ⟨c, here⟩ := hand
  have atHand := sound.hands other c here
  obtain ⟨i, same, head, _⟩ := sound.presses presses
  obtain rfl := Option.some.inj same
  cases split : d.log with
  | nil => exact (split ▸ presses).elim
  | cons e earlier =>
    rw [split] at presses head atHand
    have mine : e.caller = id := Option.some.inj head
    rw [inHand_cons_of_ne other e earlier fun eq => ne (eq.symm.trans mine)] at atHand
    exact absurd (atHand.symm.trans (presses.2.2 other)) (Option.some_ne_none c)

/-- **A claim is given up** when another session is to fetch the key. -/
theorem lapse (sound : Sound configured line (some id) phase d) (holding : phase id = .holding c)
    {other : Nat} (holds : d.keys.holder = some other) :
    Sound configured line (some id) (Function.update phase id .idle) d := by
  have aside : ¬ (phase id).Fetching := by rw [holding]; exact not_false
  have ne : other ≠ id := fun same => sound.holder_ne aside (same ▸ holds)
  have same := held_update_of_ne phase (sound.holder_ne aside) .idle
  exact sound.move (by rw [holding]; exact not_false) (sound.holder_update False.elim)
    (fun _ here => by cases here) (told_update (fun _ _ told => by cases told) sound.told)
    (congrArg _ same) (congrArg (fun held => d.key.or held.key?) same)
    (sound.queued.update fun f => absurd f aside)
    (fun presses => absurd presses (sound.quiet_of_holder holds ne))
    (by rw [holding]; exact False.elim)

/-- When the session that fetches the key stops doing so, nobody does. -/
theorem not_fetching_update (sound : Sound configured line (some id) phase d)
    (fetching : (phase id).Fetching) {after : Phase} (stops : ¬ after.Fetching) (i : Nat) :
    ¬ (Function.update phase id after i).Fetching := by
  intro fetches
  have holds := sound.holder_update (fun f => absurd f stops) i fetches
  obtain rfl := Option.some.inj (holds.symm.trans (sound.holder id fetching))
  rw [Function.update_self] at fetches
  exact stops fetches

/-- **The key is made known** by the session that has fetched it. -/
theorem publish (sound : Sound configured line (some id) phase d) {key : Bytes}
    (fetched : phase id = .fetched c key) :
    Sound configured line (some id) (Function.update phase id (.told c key))
      ⟨d.log, some key, .free⟩ := by
  have fetching : (phase id).Fetching := by rw [fetched]; trivial
  have before := sound.held_of_fetching fetching
  have unknown := sound.unknown fetching
  have stops : ¬ (Phase.told c key).Fetching := not_false
  refine sound.move (by rw [fetched]; exact not_false)
    (fun i fetches => absurd fetches (sound.not_fetching_update fetching stops i))
    (by rw [fetched]; exact fun _ here => here)
    (told_update (fun c' k told => ?_) fun i c' k told => ?_)
    (by rw [before, fetched]; rfl) (by rw [before, fetched, unknown]; rfl)
    (.known (Option.some_ne_none key) rfl)
    (fun presses => absurd presses (sound.not_presses (by rw [fetched]; exact not_false)))
    fun _ => trivial
  · obtain ⟨⟩ := told
    rfl
  · exact absurd ((sound.told i c' k told).symm.trans unknown) (Option.some_ne_none k)

/-- **The turn is passed on** by the session that has failed to fetch the key. -/
theorem release (sound : Sound configured line (some id) phase d) (failed : phase id = .failed) :
    Sound configured line (some id) (Function.update phase id .idle)
      ⟨d.log, d.key, d.keys.passOn⟩ := by
  have fetching : (phase id).Fetching := by rw [failed]; trivial
  have before := sound.held_of_fetching fetching
  have unknown := sound.unknown fetching
  have inLine := sound.kept fetching
  -- The next to fetch it has been in line.
  have next (i : Nat) (turn : d.keys.passOn.holder = some i) :
      i ∈ line ∧ Function.update phase id .idle i = phase i := by
    have mem : i ∈ line := inLine ▸ List.mem_of_head? turn
    have ne : i ≠ id := fun same => sound.apart id rfl (same ▸ mem)
    exact ⟨mem, Function.update_of_ne ne _ _⟩
  have after : ∀ key, (held (Function.update phase id .idle) ⟨d.log, key, d.keys.passOn⟩).flight?
      = none ∧ (held (Function.update phase id .idle) ⟨d.log, key, d.keys.passOn⟩).key? = none := by
    intro key
    rw [held]
    cases turn : d.keys.passOn.holder with
    | none => exact ⟨rfl, rfl⟩
    | some i =>
      obtain ⟨mem, same⟩ := next i turn
      obtain ⟨c, holding⟩ := sound.lined i mem
      simp [same, holding, Phase.flight?, Phase.key?]
  have stops : ¬ Phase.idle.Fetching := not_false
  refine sound.move (by rw [failed]; exact not_false)
    (fun i fetches => absurd fetches (sound.not_fetching_update fetching stops i))
    (fun _ here => by cases here) (told_update (fun _ _ told => by cases told) sound.told)
    (by rw [(after _).1, before, failed]; rfl)
    (by rw [(after _).2, before, failed]; rfl) ?_
    (fun presses => absurd presses (sound.not_presses (by rw [failed]; exact not_false)))
    (by rw [failed]; exact False.elim)
  cases waiting : d.keys.waiting with
  | nil =>
    refine .kept unknown ?_ (fun ne => absurd (inLine.symm.trans waiting) ne) fun i turn => ?_
    · rw [KeyQueue.passOn, waiting, ← inLine, waiting]
      rfl
    · simp [KeyQueue.passOn, waiting] at turn
  | cons first rest =>
    refine .passed first unknown ?_ ?_
    · rw [KeyQueue.passOn, waiting]
      rfl
    · rw [KeyQueue.passOn, waiting, ← inLine, waiting]
      rfl

/-- **A place in line** is taken by a session that claims the key while another is to fetch it. It
leaves the turn to others. -/
theorem join (sound : Sound configured line (some id) phase d) (holding : phase id = .holding c)
    (unknown : d.key = none) {other : Nat} (holds : d.keys.holder = some other) :
    Sound configured (line ++ [id]) none phase
      ⟨d.log, d.key, { d.keys with waiting := d.keys.waiting ++ [id] }⟩ where
  trusted := sound.trusted
  holder := sound.holder
  hands := sound.hands
  told := sound.told
  flying := sound.flying
  known := sound.known
  queued := by
    cases sound.queued with
    | known known _ => exact absurd unknown known
    | kept _ inLine _ fetching =>
      exact .kept unknown (congrArg (· ++ [id]) inLine)
        (fun _ => holds ▸ Option.some_ne_none other) fetching
    | passed first _ turn inLine => exact .passed first unknown turn (congrArg (· ++ [id]) inLine)
  lined := List.forall_mem_append.mpr ⟨sound.lined, List.forall_mem_singleton.mpr ⟨c, holding⟩⟩
  apart _ none := by cases none
  resting i _ := by
    by_cases mine : i = id
    · rw [mine, holding]
      trivial
    · exact sound.resting i fun same => mine (Option.some.inj same).symm
  presses presses := by
    have aside : ¬ (phase id).Fetching := by rw [holding]; exact not_false
    have ne : other ≠ id := fun same => sound.holder_ne aside (same ▸ holds)
    exact absurd presses (sound.quiet_of_holder holds ne)
  announced said earlier split presses := by
    obtain ⟨same, announced⟩ := sound.announced said earlier split presses
    rw [← Option.some.inj same, holding] at announced
    exact announced.elim
  opening fetched earlier split brought := by
    obtain ⟨same, opens⟩ := sound.opening fetched earlier split brought
    rw [← Option.some.inj same, holding] at opens
    exact opens.elim

/-- **The turn is left** by a session that waits for something else or has ended. -/
theorem leave (sound : Sound configured line (some id) phase d) (rests : (phase id).Resting)
    (quiet : (phase id).Quiet) : Sound configured line none phase d :=
  { sound with
    apart := fun _ none => by cases none
    resting := fun i _ => by
      by_cases mine : i = id
      · exact mine ▸ rests
      · exact sound.resting i fun same => mine (Option.some.inj same).symm
    presses := fun presses => absurd presses (sound.atRest quiet).quiet
    announced := fun said earlier split presses =>
      absurd presses ((sound.atRest quiet).asked said earlier split)
    opening := fun fetched earlier split brought =>
      absurd ((sound.atRest quiet).used fetched earlier split) brought }

/-- **The turn is taken** by a session that is not in line. -/
theorem take (sound : Sound configured line none phase d) (aside : id ∉ line) :
    Sound configured line (some id) phase d :=
  { sound with
    apart := fun _ same => Option.some.inj same ▸ aside
    resting := fun i _ => sound.resting i (Option.some_ne_none i).symm
    presses := fun presses => absurd presses sound.atRest_of_none.quiet
    announced := fun said earlier split presses =>
      absurd presses (sound.atRest_of_none.asked said earlier split)
    opening := fun fetched earlier split brought =>
      absurd (sound.atRest_of_none.used fetched earlier split) brought }

end Turns

end Sound

/-! ### The line -/

/-- How the claim of a session in line **ends** at a desk, if it does. -/
def call (d : Desk) (id : Nat) : Option Claim :=
  match d.key with
  | some key => some (.known key)
  | none => if d.keys.holder = some id then some .granted else none

/-- Where no key is known, the claim of a session that is not the one to fetch it goes on. -/
theorem call_of_ne (unknown : d.key = none) {id : Nat} (other : d.keys.holder ≠ some id) :
    d.call id = none := by
  rw [call, unknown]
  exact if_neg other

/-- How the claims of some sessions in line end at a desk, while the others are left alone. -/
def callAmong (d : Desk) (here : List Nat) (id : Nat) : Option Claim :=
  if id ∈ here then d.call id else none

/-- How the claim of a session in line ends at a desk when its limit has come: it is given up unless
the desk has an answer to it. -/
def answer (d : Desk) (id : Nat) : Claim := (d.call id).getD .lapsed

/-- The phases of sessions after a test of those in line has told whose claims have ended. -/
def wokenBy (test : Nat → Option Claim) (line : List Nat) (phase : Nat → Phase) (id : Nat) : Phase :=
  if id ∈ line then (phase id).woken (test id) else phase id

/-- The line without those whose claims have ended. -/
def lineAfter (test : Nat → Option Claim) (line : List Nat) : List Nat :=
  line.filter fun id => (test id).isNone

/-- The line stays as it is when no claim ends. -/
theorem lineAfter_eq_self {test : Nat → Option Claim} (still : ∀ i ∈ line, test i = none) :
    lineAfter test line = line :=
  List.filter_eq_self.mpr fun i mem => Option.isNone_iff_eq_none.mpr (still i mem)

/-- How a session that may be in line is **woken** at a desk: it is not, or it has a certificate at
hand and its claim has ended there. -/
inductive Woken (d : Desk) (i : Nat) (before after : Phase) : Prop
  /-- It stays where it was. -/
  | kept (same : after = before)
  /-- It is told the key. -/
  | told (c key : Bytes) (holding : before = .holding c) (known : d.key = some key)
    (woken : after = .told c key)
  /-- It is the one to fetch the key. -/
  | granted (c : Bytes) (holding : before = .holding c) (turn : d.keys.holder = some i)
    (woken : after = .granted c)
  /-- It has given its claim up. -/
  | lapsed (c : Bytes) (holding : before = .holding c) (woken : after = .idle)

/-- Only the session that holds the queue is granted the fetch, and a key that is told is known. -/
def Answers (d : Desk) (test : Nat → Option Claim) : Prop :=
  ∀ id, (∀ key, test id = some (.known key) → d.key = some key) ∧
    (test id = some .granted → d.keys.holder = some id)

namespace Sound

/-- A session in line is woken with what the test says. -/
theorem wokenBy_of_mem {test : Nat → Option Claim} {i : Nat} {c : Bytes} (mem : i ∈ line)
    (holding : phase i = .holding c) :
    wokenBy test line phase i = Phase.woken (test i) (.holding c) := by
  rw [wokenBy, if_pos mem, holding]

/-- A session that is not in line is left alone. -/
theorem wokenBy_of_not_mem {test : Nat → Option Claim} {i : Nat} (aside : i ∉ line) :
    wokenBy test line phase i = phase i := if_neg aside

/-- Neither is one whose claim has not ended. -/
theorem wokenBy_of_none {test : Nat → Option Claim} {i : Nat} (still : test i = none) :
    wokenBy test line phase i = phase i := by
  rw [wokenBy, still]
  cases phase i <;> exact ite_self _

/-- Who fetches the key is not in line. -/
theorem not_mem_of_fetching (sound : Sound configured line active phase d) {i : Nat}
    (fetching : (phase i).Fetching) : i ∉ line := by
  intro mem
  obtain ⟨c, holding⟩ := sound.lined i mem
  rw [holding] at fetching
  exact fetching

/-- Each session stays where it was when claims end, or its own claim has ended at the desk. -/
theorem woken (sound : Sound configured line active phase d) {test : Nat → Option Claim}
    (answers : d.Answers test) (i : Nat) :
    d.Woken i (phase i) (wokenBy test line phase i) := by
  by_cases mem : i ∈ line
  · obtain ⟨c, holding⟩ := sound.lined i mem
    have after : wokenBy test line phase i = Phase.woken (test i) (.holding c) :=
      wokenBy_of_mem mem holding
    cases tested : test i with
    | none => exact .kept (by rw [after, tested, holding]; rfl)
    | some outcome =>
      rw [tested] at after
      cases outcome with
      | known key => exact .told c key holding ((answers i).1 key tested) after
      | granted => exact .granted c holding ((answers i).2 tested) after
      | lapsed => exact .lapsed c holding after
  · exact .kept (wokenBy_of_not_mem mem)

/-- The session that holds the queue has no fetch under way when it is woken, and brings no key. -/
theorem held_wokenBy (sound : Sound configured line active phase d) {test : Nat → Option Claim}
    (answers : d.Answers test) {keys : KeyQueue} (same : keys.holder = d.keys.holder) :
    (held (wokenBy test line phase) ⟨d.log, d.key, keys⟩).flight? = (held phase d).flight? ∧
      (held (wokenBy test line phase) ⟨d.log, d.key, keys⟩).key? = (held phase d).key? := by
  rw [held, held, same]
  cases d.keys.holder with
  | none => exact ⟨rfl, rfl⟩
  | some i =>
    show (wokenBy test line phase i).flight? = (phase i).flight? ∧
      (wokenBy test line phase i).key? = (phase i).key?
    cases sound.woken answers i with
    | kept same => exact ⟨congrArg _ same, congrArg _ same⟩
    | told c key holding _ woken | granted c holding _ woken | lapsed c holding woken =>
      rw [holding, woken]
      exact ⟨rfl, rfl⟩

/-- **Claims end** for some of those in line, as a test of them says. -/
theorem wake (sound : Sound configured line none phase d) {test : Nat → Option Claim}
    (answers : d.Answers test) {keys : KeyQueue} (same : keys.holder = d.keys.holder)
    (queued : Queued (lineAfter test line) (wokenBy test line phase) ⟨d.log, d.key, keys⟩) :
    Sound configured (lineAfter test line) none (wokenBy test line phase) ⟨d.log, d.key, keys⟩ where
  trusted := sound.trusted
  holder i fetches := by
    rw [same]
    cases sound.woken answers i with
    | kept same => exact sound.holder i (same ▸ fetches)
    | granted _ _ turn _ => exact turn
    | told _ _ _ _ woken | lapsed _ _ woken => exact (woken ▸ fetches).elim
  hands i c here := by
    refine sound.hands i c ?_
    cases sound.woken answers i with
    | kept same => exact same ▸ here
    | told _ _ holding _ woken | granted _ holding _ woken =>
      rw [woken] at here
      rw [holding]
      exact here
    | lapsed _ _ woken =>
      rw [woken] at here
      cases here
  told i c key told := by
    cases sound.woken answers i with
    | kept same => exact sound.told i c key (same ▸ told)
    | told _ _ _ known woken =>
      cases woken.symm.trans told
      exact known
    | granted _ _ _ woken | lapsed _ _ woken => cases woken.symm.trans told
  flying := by
    rw [(sound.held_wokenBy answers same).1]
    exact sound.flying
  known := by
    rw [(sound.held_wokenBy answers same).2]
    exact sound.known
  queued := queued
  lined i mem := by
    obtain ⟨mem, waits⟩ := List.mem_filter.mp mem
    obtain ⟨c, holding⟩ := sound.lined i mem
    rw [wokenBy_of_mem mem holding, Option.isNone_iff_eq_none.mp waits]
    exact ⟨c, rfl⟩
  apart _ none := by cases none
  resting i _ := by
    cases sound.woken answers i with
    | kept same => exact same ▸ sound.resting i (Option.some_ne_none i).symm
    | told _ _ _ _ woken | granted _ _ _ woken | lapsed _ _ woken =>
      rw [woken]
      trivial
  presses presses := absurd presses sound.atRest_of_none.quiet
  announced said earlier split presses :=
    absurd presses (sound.atRest_of_none.asked said earlier split)
  opening fetched earlier split brought :=
    absurd (sound.atRest_of_none.used fetched earlier split) brought

/-- Claims end at a desk with what it knows. -/
theorem answers_call (d : Desk) : d.Answers d.call := by
  intro id
  rw [call]
  cases known : d.key with
  | some key => simp
  | none => by_cases turn : d.keys.holder = some id <;> simp [turn]

/-- So do those of some sessions. -/
theorem answers_callAmong (d : Desk) (here : List Nat) : d.Answers (d.callAmong here) := by
  intro id
  rw [callAmong]
  split
  · exact answers_call d id
  · exact ⟨nofun, nofun⟩

/-- **Those in line that wait are called out of it** when their claims have ended at the desk. -/
theorem callOut (sound : Sound configured line none phase d) (distinct : line.Nodup)
    (here : List Nat) : Sound configured (lineAfter (d.callAmong here) line) none
      (wokenBy (d.callAmong here) line phase) d := by
  refine sound.wake (answers_callAmong d here) rfl ?_
  -- A session is called out where the key is known, or when it is its turn.
  have other (unknown : d.key = none) {i : Nat} (ne : d.keys.holder ≠ some i) :
      d.callAmong here i = none := by
    rw [callAmong, call_of_ne unknown ne, ite_self]
  cases sound.queued with
  | known known free => exact .known known free
  | kept unknown inLine taken fetching =>
    have all : lineAfter (d.callAmong here) line = line := lineAfter_eq_self fun i mem =>
      other unknown fun holds => sound.not_mem_of_fetching (fetching i holds) mem
    rw [all]
    refine .kept unknown inLine taken fun i holds => ?_
    rw [wokenBy_of_not_mem (sound.not_mem_of_fetching (fetching i holds))]
    exact fetching i holds
  | passed first unknown turn inLine =>
    have mem : first ∈ line := inLine ▸ List.mem_cons_self
    have rest {i : Nat} (behind : i ∈ d.keys.waiting) : d.callAmong here i = none := by
      refine other unknown fun holds => ?_
      obtain rfl := Option.some.inj (turn.symm.trans holds)
      exact (List.nodup_cons.mp (inLine ▸ distinct)).1 behind
    by_cases waits : first ∈ here
    · have granted : d.callAmong here first = some .granted := by
        rw [callAmong, if_pos waits, call, unknown]
        exact if_pos turn
      have behind : lineAfter (d.callAmong here) line = d.keys.waiting := by
        rw [inLine, lineAfter, List.filter_cons_of_neg (by rw [granted]; exact Bool.false_ne_true)]
        exact lineAfter_eq_self fun i => rest
      refine .kept unknown behind.symm (fun _ => turn ▸ Option.some_ne_none first) fun i holds => ?_
      obtain rfl := Option.some.inj (turn.symm.trans holds)
      obtain ⟨c, holding⟩ := sound.lined first mem
      rw [wokenBy_of_mem mem holding, granted]
      trivial
    -- One that is ready to make its claim once more keeps its turn.
    · have all : lineAfter (d.callAmong here) line = line := by
        refine lineAfter_eq_self fun i mem => ?_
        rcases List.mem_cons.mp (inLine ▸ mem) with rfl | behind
        · exact if_neg waits
        · exact rest behind
      rw [all]
      exact .passed first unknown turn inLine

/-- A session that is not in line is not in the queue. -/
theorem leave_of_not_mem (sound : Sound configured line active phase d) {id : Nat}
    (aside : id ∉ line) : d.keys.leave id = d.keys := by
  have absent : id ∉ d.keys.waiting := by
    cases sound.queued with
    | known _ free =>
      rw [free]
      exact List.not_mem_nil
    | kept _ inLine _ _ => exact inLine ▸ aside
    | passed first _ _ inLine => exact fun mem => aside (inLine ▸ List.mem_cons_of_mem _ mem)
  rw [KeyQueue.leave, List.erase_of_not_mem absent]

/-- Nor is one in line to whose claim the desk has an answer. -/
theorem leave_of_call (sound : Sound configured line active phase d) (distinct : line.Nodup)
    {id : Nat} (mem : id ∈ line) {outcome : Claim} (called : d.call id = some outcome) :
    d.keys.leave id = d.keys := by
  cases sound.queued with
  | known _ free =>
    rw [free]
    rfl
  | kept unknown _ _ fetching =>
    have none := call_of_ne unknown fun holds => sound.not_mem_of_fetching (fetching id holds) mem
    exact nomatch called.symm.trans none
  | passed first unknown turn inLine =>
    have mine : d.keys.holder = some id := by
      by_contra other
      exact nomatch called.symm.trans (call_of_ne unknown other)
    obtain rfl := Option.some.inj (turn.symm.trans mine)
    rw [KeyQueue.leave, List.erase_of_not_mem (List.nodup_cons.mp (inLine ▸ distinct)).1]

/-- **A session in line is answered** when the limit of its claim has come, and is in line no longer. -/
theorem answer (sound : Sound configured line none phase d) (distinct : line.Nodup) {id : Nat}
    {c : Bytes} (mem : id ∈ line) (holding : phase id = .holding c) :
    Sound configured (line.erase id) none
      (Function.update phase id (.woken (some (d.answer id)) (.holding c)))
      ⟨d.log, d.key, d.keys.leave id⟩ := by
  let test : Nat → Option Claim := fun i => if i = id then some (d.answer id) else none
  have here : test id = some (d.answer id) := if_pos rfl
  have elsewhere {i : Nat} (ne : i ≠ id) : test i = none := if_neg ne
  have answers : d.Answers test := by
    intro i
    by_cases mine : i = id
    · subst mine
      rw [here, Desk.answer]
      have ended := answers_call d i
      cases called : d.call i with
      | none => exact ⟨nofun, nofun⟩
      | some outcome =>
        rw [called] at ended
        exact ended
    · rw [elsewhere mine]
      exact ⟨nofun, nofun⟩
  have line_eq : lineAfter test line = line.erase id := by
    rw [lineAfter, distinct.erase_eq_filter]
    refine List.filter_congr fun i _ => ?_
    by_cases mine : i = id
    · simp [mine, here]
    · simp [mine, elsewhere mine]
  have phase_eq : wokenBy test line phase
      = Function.update phase id (.woken (some (d.answer id)) (.holding c)) := by
    funext i
    by_cases mine : i = id
    · subst mine
      rw [wokenBy_of_mem mem holding, here, Function.update_self]
    · rw [Function.update_of_ne mine, wokenBy_of_none (elsewhere mine)]
  have queued : Queued (line.erase id)
      (Function.update phase id (.woken (some (d.answer id)) (.holding c)))
      ⟨d.log, d.key, d.keys.leave id⟩ := by
    cases sound.queued with
    | known known free => exact .known known (by rw [free]; rfl)
    | kept unknown inLine taken fetching =>
      refine .kept unknown (congrArg (·.erase id) inLine)
        (fun _ => taken (List.ne_nil_of_mem mem)) fun i holds => ?_
      have ne : i ≠ id := fun same => sound.not_mem_of_fetching (fetching i holds) (same ▸ mem)
      rw [Function.update_of_ne ne]
      exact fetching i holds
    | passed first unknown turn inLine =>
      by_cases mine : first = id
      · subst mine
        have granted : d.call first = some .granted := by
          rw [call, unknown]
          exact if_pos turn
        rw [Desk.answer, granted, sound.leave_of_call distinct mem granted]
        refine .kept unknown ?_ (fun _ => turn ▸ Option.some_ne_none first) fun i holds => ?_
        · rw [inLine, List.erase_cons_head]
        · obtain rfl := Option.some.inj (turn.symm.trans holds)
          rw [Function.update_self]
          trivial
      · refine .passed first unknown turn ?_
        rw [inLine, List.erase_cons_tail (by simpa using mine)]
        rfl
  rw [← line_eq, ← phase_eq] at queued ⊢
  exact sound.wake answers rfl queued

end Sound

end Desk

end CertifiedCalls
