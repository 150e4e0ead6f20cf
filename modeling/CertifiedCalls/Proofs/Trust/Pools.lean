import CertifiedCalls.Proofs.Trust.Sessions
import CertifiedCalls.Proofs.Workflow.SideBySide
import Mathlib.Data.List.Nodup

/-! # Pools of sessions
A pool of sessions is **tended** when it is at a sound desk and each of its sessions is where its
phase says. Each step of a pool keeps it so (`Guarded.step`), and so does whatever it reaches
(`Guarded.reaches`), in whatever order those that are ready run: its log is trusted, and while a
session waits in line with none ready, a fetch of the key is under way. -/

namespace CertifiedCalls

open Workflow (Obeys endsIdle)

namespace Pool

variable {σ α : Type}

/-- How a session that waits is **woken**, when a test tells whose claims have ended. -/
inductive Woken (outcome : Nat → Option Claim) (now i : Nat) :
    Waiting platform α → Ready platform α → Prop
  /-- Its time has come. -/
  | until (time : Nat) (what : Option (Happening platform)) (next : Workflow platform α) :
    Woken outcome now i (.until time what next) ⟨i, what, next⟩
  /-- Its claim has ended. -/
  | claim (limit : Option Nat) (next : Claim → Workflow platform α) {o : Claim}
    (ended : outcome i = some o) : Woken outcome now i (.inLine limit next) ⟨i, none, next o⟩
  /-- The limit of its claim has come, and it makes the claim once more. -/
  | limit (l : Nat) (next : Claim → Workflow platform α) (still : outcome i = none) (late : l ≤ now) :
    Woken outcome now i (.inLine (some l) next) ⟨i, none, .claim (some l) next⟩

/-- What is woken is the session that waits. -/
theorem Woken.id_eq {outcome : Nat → Option Claim} {now i : Nat} {w : Waiting platform α}
    {task : Ready platform α} (h : Woken outcome now i w task) : task.id = i := by
  cases h <;> rfl

/-- Who waits in line is called out of it with what the desk answers. -/
theorem called_inLine (d : Desk) (i : Nat) (limit : Option Nat) (next : Claim → Workflow platform α) :
    called d.key d.keys.holder i (.inLine limit next)
      = (d.call i).map fun o => (⟨i, none, next o⟩ : Ready platform α) := by
  rw [Desk.call]
  cases d.key with
  | some key => rfl
  | none =>
    show (if _ then _ else _) = Option.map _ (if _ then _ else _)
    split <;> rfl

/-- A pool of sessions is **tended** at a desk, with a line and the phases of its sessions. -/
structure Tended (configured : Option Bytes) (base : List (Entry platform)) (line : List Nat)
    (phase : Nat → Phase) (d : Desk) (p : Pool platform σ α) : Prop where
  /-- The desk is sound. -/
  sound : d.Sound configured line none phase
  /-- The world shows it. -/
  shown : d.Shown base p.world
  /-- The queue is that of the desk. -/
  keys : p.keys = d.keys
  /-- Nobody is in line twice. -/
  distinct : line.Nodup
  /-- Those that are ready fit their phases. -/
  ready : ∀ task ∈ p.ready, (phase task.id).Fits task.what task.workflow
  /-- Those of them that are in line make their claims once more, at the limit. -/
  late : ∀ task ∈ p.ready, task.id ∈ line → ∃ l next, l ≤ p.world.now ∧
    task = ⟨task.id, none, .claim (some l) next⟩
  /-- Those that wait fit their phases. -/
  waiting : ∀ entry ∈ p.waiting, (phase entry.1).Awaits entry.2
  /-- Those that have not been started are in the first phase. -/
  queued : ∀ task ∈ p.queued,
    phase task.id = .idle ∧ task.what = none ∧ task.workflow.Obeys endsIdle .idle
  /-- Those that wait for the key are in line. -/
  inLine : ∀ i limit next, (i, .inLine limit next) ∈ p.waiting → i ∈ line
  /-- Those in line wait for the key or are ready. -/
  placed : ∀ i ∈ line, (∃ limit next, (i, .inLine limit next) ∈ p.waiting) ∨ i ∈ p.ready.map Ready.id
  /-- Who is granted the fetch is ready to make it. -/
  turn : ∀ i c, phase i = .granted c → i ∈ p.ready.map Ready.id

namespace Tended

variable {configured : Option Bytes} {base : List (Entry platform)} {line : List Nat}
  {phase : Nat → Phase} {d : Desk} {p : Pool platform σ α}

/-- Who has not been started is not in line. -/
theorem queued_aside (h : Tended configured base line phase d p) {task : Ready platform α}
    (mem : task ∈ p.queued) : task.id ∉ line := by
  intro here
  obtain ⟨c, holding⟩ := h.sound.lined task.id here
  cases holding.symm.trans (h.queued task mem).1

/-- Who waits for a time is not in line. -/
theorem until_aside (h : Tended configured base line phase d p) {i time : Nat}
    {what : Option (Happening platform)} {next : Workflow platform α}
    (mem : (i, .until time what next) ∈ p.waiting) : i ∉ line := by
  intro here
  obtain ⟨c, holding⟩ := h.sound.lined i here
  obtain idle | ⟨c', number, asking⟩ := Phase.idle_or_asking_of_awaits (h.waiting _ mem)
  · cases holding.symm.trans idle
  · cases holding.symm.trans asking

/-- **Some of those that wait are woken**, those in line when a test tells that their claims have ended,
or to make their claims once more. -/
theorem wake (h : Tended configured base line phase d p)
    (test : Nat → Waiting platform α → Option (Ready platform α)) {outcome : Nat → Option Claim}
    {world : World platform σ}
    (sound : d.Sound configured (Desk.lineAfter outcome line) none (Desk.wokenBy outcome line phase))
    (shown : d.Shown base world) (later : p.world.now ≤ world.now)
    (still : ∀ task ∈ p.ready, outcome task.id = none)
    (woken : ∀ entry ∈ p.waiting, ∀ task, test entry.1 entry.2 = some task →
      Woken outcome world.now entry.1 entry.2 task)
    (asleep : ∀ i limit next, (i, .inLine limit next) ∈ p.waiting →
      test i (.inLine limit next) = none → outcome i = none) :
    Tended configured base (Desk.lineAfter outcome line) (Desk.wokenBy outcome line phase) d
      ({ p with world := world }.wake test) where
  sound := sound
  shown := shown
  keys := h.keys
  distinct := h.distinct.filter _
  ready := by
    refine List.forall_mem_append.mpr ⟨fun task mem => ?_, fun task mem => ?_⟩
    · rw [Desk.Sound.wokenBy_of_none (still task mem)]
      exact h.ready task mem
    · obtain ⟨entry, here, tested⟩ := List.mem_filterMap.mp mem
      have awaits := h.waiting entry here
      obtain ⟨i, w⟩ := entry
      cases woken _ here task tested with
      | «until» time what next =>
        rw [Desk.Sound.wokenBy_of_not_mem (h.until_aside here)]
        exact awaits.1
      | claim limit next ended =>
        obtain ⟨c, holding, obeys⟩ := awaits
        rw [Desk.Sound.wokenBy_of_mem (h.inLine i limit next here) holding, ended]
        exact obeys _
      | limit l next still late =>
        obtain ⟨c, holding, obeys⟩ := awaits
        rw [Desk.Sound.wokenBy_of_none still]
        exact ⟨c, holding, fun key => obeys (.known key), obeys .granted, obeys .lapsed⟩
  late := by
    refine List.forall_mem_append.mpr ⟨fun task mem inLine => ?_, fun task mem inLine => ?_⟩
    · obtain ⟨l, next, early, same⟩ := h.late task mem (List.mem_filter.mp inLine).1
      exact ⟨l, next, Nat.le_trans early later, same⟩
    · obtain ⟨member, none⟩ := List.mem_filter.mp inLine
      obtain ⟨⟨i, w⟩, here, tested⟩ := List.mem_filterMap.mp mem
      cases woken _ here task tested with
      | «until» time what next => exact absurd member (h.until_aside here)
      | claim limit next ended => simp [ended] at none
      | limit l next still late => exact ⟨l, next, late, rfl⟩
  waiting entry mem := by
    obtain ⟨here, asleep'⟩ := List.mem_filter.mp mem
    obtain ⟨i, w⟩ := entry
    have awaits := h.waiting _ here
    cases w with
    | «until» time what next =>
      rw [Desk.Sound.wokenBy_of_not_mem (h.until_aside here)]
      exact awaits
    | inLine limit next =>
      rw [Desk.Sound.wokenBy_of_none
        (asleep i limit next here (Option.isNone_iff_eq_none.mp asleep'))]
      exact awaits
  queued task mem := by
    rw [Desk.Sound.wokenBy_of_not_mem (h.queued_aside mem)]
    exact h.queued task mem
  inLine i limit next mem := by
    obtain ⟨here, asleep'⟩ := List.mem_filter.mp mem
    have none := asleep i limit next here (Option.isNone_iff_eq_none.mp asleep')
    exact List.mem_filter.mpr ⟨h.inLine i limit next here, Option.isNone_iff_eq_none.mpr none⟩
  placed i mem := by
    rw [Pool.wake, List.map_append, List.mem_append]
    rcases h.placed i (List.mem_filter.mp mem).1 with ⟨limit, next, here⟩ | ready
    · cases tested : test i (.inLine limit next) with
      | none => exact .inl ⟨limit, next, List.mem_filter.mpr ⟨here, by simp [tested]⟩⟩
      | some task =>
        exact .inr (.inr (List.mem_map.mpr ⟨task, List.mem_filterMap.mpr ⟨_, here, tested⟩,
          (woken _ here task tested).id_eq⟩))
    · exact .inr (.inl ready)
  turn i c granted := by
    rw [Pool.wake, List.map_append, List.mem_append]
    -- Who is granted the fetch was so before, or is woken with that.
    by_cases changed : i ∈ line ∧ outcome i ≠ none
    · obtain ⟨member, ended⟩ := changed
      rcases h.placed i member with ⟨limit, next, here⟩ | ready
      · obtain ⟨task, tested⟩ := Option.ne_none_iff_exists'.mp fun none =>
          ended (asleep i limit next here none)
        exact .inr (List.mem_map.mpr ⟨task, List.mem_filterMap.mpr ⟨_, here, tested⟩,
          (woken _ here task tested).id_eq⟩)
      · exact .inl ready
    · have before : Desk.wokenBy outcome line phase i = phase i := by
        by_cases member : i ∈ line
        · exact Desk.Sound.wokenBy_of_none (of_not_not fun ended => changed ⟨member, ended⟩)
        · exact Desk.Sound.wokenBy_of_not_mem member
      exact .inl (h.turn i c (before.symm.trans granted))

/-- **Calling those out of the line** whose claims have ended. -/
theorem callOut (h : Tended configured base line phase d p) (apart : p.ids.Nodup) :
    ∃ line phase, Tended configured base line phase d p.callOut := by
  have outside {task : Ready platform α} (mem : task ∈ p.ready) :
      task.id ∉ p.waiting.map Prod.fst := by
    rw [ids, List.nodup_append] at apart
    exact fun waits => apart.2.2 task.id (List.mem_map_of_mem mem) task.id
      (List.mem_append_left _ waits) rfl
  -- What is called out of the line is what the desk answers.
  have test {i : Nat} {limit : Option Nat} {next : Claim → Workflow platform α}
      (here : (i, .inLine limit next) ∈ p.waiting) :
      called p.world.key p.keys.holder i (.inLine limit next)
        = (d.callAmong (p.waiting.map Prod.fst) i).map fun o => ⟨i, none, next o⟩ := by
    rw [h.shown.key, h.keys, called_inLine, Desk.callAmong, if_pos (List.mem_map_of_mem here)]
  refine ⟨_, _, h.wake (called p.world.key p.keys.holder)
    (h.sound.callOut h.distinct (p.waiting.map Prod.fst)) h.shown (Nat.le_refl _)
    (fun task mem => if_neg (outside mem)) (fun entry mem task woken => ?_)
    fun i limit next here none => ?_⟩
  · obtain ⟨i, w⟩ := entry
    cases w with
    | «until» time what next => cases woken
    | inLine limit next =>
      obtain ⟨o, ended, rfl⟩ := Option.map_eq_some_iff.mp ((test mem).symm.trans woken)
      exact .claim limit next ended
  · exact Option.map_eq_none_iff.mp ((test here).symm.trans none)

/-- **Time passes** for a pool, and those in line whose limit has come make their claims once more. -/
theorem pass (h : Tended configured base line phase d p) {time : Nat} (later : p.world.now ≤ time) :
    Tended configured base line phase d (p.pass time) := by
  -- No claim ends yet.
  have line_eq : Desk.lineAfter (fun _ => none) line = line := Desk.lineAfter_eq_self fun _ _ => rfl
  have phase_eq : Desk.wokenBy (fun _ => none) line phase = phase :=
    funext fun _ => Desk.Sound.wokenBy_of_none rfl
  have shown : d.Shown base { p.world with now := time } := ⟨h.shown.past, h.shown.key⟩
  have sound : d.Sound configured (Desk.lineAfter (fun _ => none) line) none
      (Desk.wokenBy (fun _ => none) line phase) := by
    rw [line_eq, phase_eq]
    exact h.sound
  have woken := h.wake (due time) sound shown later (fun _ _ => rfl) (fun entry _ task woken => ?_)
    fun _ _ _ _ _ => rfl
  · rw [line_eq, phase_eq] at woken
    exact woken
  · obtain ⟨i, w⟩ := entry
    unfold due at woken
    split at woken
    · rename_i now
      cases w with
      | «until» t what next =>
        obtain rfl := Option.some.inj woken
        exact .until t what next
      | inLine limit next =>
        obtain rfl : limit = some time := now
        obtain rfl := Option.some.inj woken
        exact .limit time next rfl (Nat.le_refl _)
    · cases woken

/-- **The session whose turn it is** keeps the desk sound until it stops. -/
theorem ran (h : Tended configured base line phase d p) (env : Environment platform σ)
    {task : Ready platform α} (mem : task ∈ p.ready) :
    Desk.Left configured base (line.erase task.id) phase task.id
      (advance env task.id (task.what.elim p.world (p.world.note task.id)) p.keys task.workflow) := by
  have fits := h.ready task mem
  rw [h.keys]
  by_cases member : task.id ∈ line
  -- One that is still in line makes its claim once more, and is answered.
  · obtain ⟨l, next, late, same⟩ := h.late task mem member
    rw [same] at fits ⊢
    have claims : (Workflow.claim (some l) next).Obeys endsIdle (phase task.id) := fits
    obtain ⟨c, holding, obeys⟩ := Phase.obeys_of_claim claims
    have answered := h.sound.answer h.distinct member holding
    have taken := answered.take h.distinct.not_mem_erase
    show Desk.Left _ _ _ _ _ (advance env task.id p.world d.keys (.claim (some l) next))
    rw [h.sound.advance_answer env h.distinct member h.shown late next]
    have left := taken.advance env (Desk.obeys_update_self (obeys _)) ⟨h.shown.past, h.shown.key⟩
    exact left.of_update
  · rw [List.erase_of_not_mem member]
    have taken := h.sound.take member
    cases what : task.what with
    | none =>
      rw [what] at fits
      exact taken.advance env fits h.shown
    | some happening =>
      rw [what] at fits
      obtain ⟨c, number, r, answer, rfl, pending, obeys⟩ := fits
      have settled := taken.settle pending p.world.now answer
      exact (settled.advance env (Desk.obeys_update_self obeys) (h.shown.note task.id _)).of_update

/-- The pool after the session whose turn it was has stopped, and waits or has ended. -/
theorem put (h : Tended configured base line phase d p) (apart : p.ids.Nodup)
    {task : Ready platform α} {rest : List (Ready platform α)} (next : p.ready = task :: rest)
    {after : Phase} {line' : List Nat} {d' : Desk} {w : World platform σ} {q : KeyQueue}
    {more : List (Nat × Waiting platform α)} (ended : List (Ended α))
    (sound : d'.Sound configured line' none (Function.update phase task.id after))
    (shown : d'.Shown base w) (later : p.world.now ≤ w.now) (keys : q = d'.keys)
    (distinct : line'.Nodup)
    (waits : ∀ entry ∈ more, entry.1 = task.id ∧ after.Awaits entry.2)
    (inLine : ∀ i, i ∈ line' ↔
      i ∈ line.erase task.id ∨ ∃ limit next, (i, .inLine limit next) ∈ more)
    (stopped : ∀ c, after ≠ .granted c) :
    Tended configured base line' (Function.update phase task.id after) d'
      { p with
        world := w, keys := q, ready := rest, waiting := p.waiting ++ more, ended := ended } := by
  rw [ids, next, List.map_cons, List.cons_append, List.nodup_cons] at apart
  -- All the others are where they were.
  have other {i : Nat} (mem : i ∈ rest.map Ready.id ∨ i ∈ p.waiting.map Prod.fst ∨
      i ∈ p.queued.map Ready.id) : Function.update phase task.id after i = phase i := by
    refine Function.update_of_ne (fun same => apart.1 ?_) after phase
    rw [← same]
    rcases mem with mem | mem | mem
    · exact List.mem_append_left _ mem
    · exact List.mem_append_right _ (List.mem_append_left _ mem)
    · exact List.mem_append_right _ (List.mem_append_right _ (List.mem_append_left _ mem))
  have ready {t : Ready platform α} (mem : t ∈ rest) : t ∈ p.ready ∧ t.id ≠ task.id :=
    ⟨next ▸ List.mem_cons_of_mem _ mem, fun same =>
      apart.1 (List.mem_append_left _ (same ▸ List.mem_map_of_mem mem))⟩
  refine ⟨sound, shown, keys, distinct, fun t mem => ?_, fun t mem member => ?_, ?_, fun t mem => ?_,
    fun i limit next' mem => ?_, fun i member => ?_, fun i c granted => ?_⟩
  · rw [other (.inl (List.mem_map_of_mem mem))]
    exact h.ready t (ready mem).1
  · obtain ⟨mem, ne⟩ := ready mem
    rcases (inLine t.id).mp member with before | ⟨limit, next', joined⟩
    · obtain ⟨l, next', early, same⟩ := h.late t mem (List.mem_of_mem_erase before)
      exact ⟨l, next', Nat.le_trans early later, same⟩
    · exact absurd (waits _ joined).1 ne
  · refine List.forall_mem_append.mpr ⟨fun entry mem => ?_, fun entry mem => ?_⟩
    · rw [other (.inr (.inl (List.mem_map_of_mem mem)))]
      exact h.waiting entry mem
    · obtain ⟨mine, awaits⟩ := waits entry mem
      rw [mine, Function.update_self]
      exact awaits
  · rw [other (.inr (.inr (List.mem_map_of_mem mem)))]
    exact h.queued t mem
  · refine (inLine i).mpr ((List.mem_append.mp mem).imp (fun here => ?_) fun joined =>
      ⟨limit, next', joined⟩)
    have ne : i ≠ task.id := fun same => apart.1 (List.mem_append_right _
      (List.mem_append_left _ (same ▸ List.mem_map_of_mem here)))
    exact (List.mem_erase_of_ne ne).mpr (h.inLine i limit next' here)
  · rcases (inLine i).mp member with before | ⟨limit, next', joined⟩
    · obtain ⟨ne, member⟩ := h.distinct.mem_erase_iff.mp before
      rcases h.placed i member with ⟨limit, next', here⟩ | mem
      · exact .inl ⟨limit, next', List.mem_append_left _ here⟩
      · rw [next, List.map_cons, List.mem_cons] at mem
        exact .inr (mem.resolve_left ne)
    · exact .inl ⟨limit, next', List.mem_append_right _ joined⟩
  · by_cases mine : i = task.id
    · rw [mine, Function.update_self] at granted
      exact absurd granted (stopped c)
    · rw [Function.update_of_ne mine] at granted
      have mem := h.turn i c granted
      rw [next, List.map_cons, List.mem_cons] at mem
      exact mem.resolve_left mine

/-- Starting the next session. -/
theorem startNext (h : Tended configured base line phase d p) :
    Tended configured base line phase d p.startNext := by
  rw [Pool.startNext]
  cases left : p.queued with
  | nil => exact h
  | cons first rest =>
    have queued := h.queued
    rw [left] at queued
    obtain ⟨idle, nothing, obeys⟩ := queued first List.mem_cons_self
    have aside : first.id ∉ line := h.queued_aside (left ▸ List.mem_cons_self)
    refine ⟨h.sound, h.shown, h.keys, h.distinct, List.forall_mem_append.mpr
      ⟨h.ready, List.forall_mem_singleton.mpr ?_⟩, List.forall_mem_append.mpr
      ⟨h.late, List.forall_mem_singleton.mpr fun member => absurd member aside⟩, h.waiting,
      fun task mem => queued task (List.mem_cons_of_mem _ mem), h.inLine, fun i member => ?_,
      fun i c granted => ?_⟩
    · rw [nothing, idle]
      exact obeys
    · rw [List.map_append]
      exact (h.placed i member).imp id (List.mem_append_left _)
    · rw [List.map_append]
      exact List.mem_append_left _ (h.turn i c granted)

/-- In which order the sessions are that are ready does not matter. -/
theorem reorder (h : Tended configured base line phase d p) {order : List (Ready platform α)}
    (perm : p.ready.Perm order) :
    Tended configured base line phase d { p with ready := order } where
  sound := h.sound
  shown := h.shown
  keys := h.keys
  distinct := h.distinct
  ready task mem := h.ready task (perm.mem_iff.mpr mem)
  late task mem := h.late task (perm.mem_iff.mpr mem)
  waiting := h.waiting
  queued := h.queued
  inLine := h.inLine
  placed i mem := (h.placed i mem).imp id (perm.map Ready.id).mem_iff.mp
  turn i c granted := (perm.map Ready.id).mem_iff.mp (h.turn i c granted)

end Tended

/-- A pool is **guarded** when it is tended and all those that can be called out of the line have
been. -/
structure Guarded (configured : Option Bytes) (base : List (Entry platform)) (p : Pool platform σ α) :
    Prop where
  /-- It is tended. -/
  tended : ∃ line phase d, Tended configured base line phase d p
  /-- Those that wait have no answer to their claims. -/
  calm : ∀ entry ∈ p.waiting, called p.world.key p.keys.holder entry.1 entry.2 = none

/-- Calling those out of the line whose claims have ended makes a pool guarded. -/
theorem Tended.guarded_callOut {configured : Option Bytes} {base : List (Entry platform)}
    {line : List Nat} {phase : Nat → Phase} {d : Desk} {p : Pool platform σ α}
    (h : Tended configured base line phase d p) (apart : p.ids.Nodup) :
    Guarded configured base p.callOut := by
  obtain ⟨line, phase, called⟩ := h.callOut apart
  exact ⟨⟨line, phase, d, called⟩, fun entry mem =>
    Option.isNone_iff_eq_none.mp (List.mem_filter.mp mem).2⟩

/-- A pool is **dropped** when its log is secured and none of its sessions goes on. -/
structure Dropped (configured : Option Bytes) (base : List (Entry platform)) (p : Pool platform σ α) :
    Prop where
  /-- Its log is secured. -/
  secured : ∃ log, p.world.Secured configured base log
  /-- None is ready. -/
  ready : p.ready = []
  /-- None waits. -/
  waiting : p.waiting = []

/-- Nothing is left to do in a pool that has been dropped. -/
theorem Dropped.step {configured : Option Bytes} {base : List (Entry platform)}
    {p : Pool platform σ α} (h : Dropped configured base p) (env : Environment platform σ)
    (isFinal : α → Bool) : p.step env isFinal = none := by
  rw [Pool.step, h.ready, nextTime, h.waiting]
  rfl

namespace Guarded

variable {configured : Option Bytes} {base : List (Entry platform)} {p : Pool platform σ α}
  {env : Environment platform σ} {ps : List (Workflow platform α)} {w₀ : World platform σ}
  {trace : List (Act platform)}

/-- Starting the next session calls nobody. -/
theorem startNext (h : Guarded configured base p) : Guarded configured base p.startNext := by
  obtain ⟨⟨line, phase, d, tended⟩, calm⟩ := h
  refine ⟨⟨line, phase, d, tended.startNext⟩, ?_⟩
  rw [Pool.startNext]
  split <;> exact calm

/-- Nor does reordering those that are ready. -/
theorem reorder (h : Guarded configured base p) {order : List (Ready platform α)}
    (perm : p.ready.Perm order) : Guarded configured base { p with ready := order } := by
  obtain ⟨⟨line, phase, d, tended⟩, calm⟩ := h
  exact ⟨⟨line, phase, d, tended.reorder perm⟩, calm⟩

/-- **Each step of a pool keeps it guarded**, or drops it. -/
theorem step (h : Guarded configured base p) (explained : Explained env ps w₀ p trace)
    (isFinal : α → Bool) {p' : Pool platform σ α} (next : p.step env isFinal = some p') :
    Guarded configured base p' ∨ Dropped configured base p' := by
  obtain ⟨⟨line, phase, d, tended⟩, calm⟩ := h
  rw [Pool.step] at next
  cases ready : p.ready with
  | nil =>
    rw [ready] at next
    obtain ⟨time, at_time, rfl⟩ := Option.map_eq_some_iff.mp next
    exact .inl ⟨⟨line, phase, d, tended.pass (explained.le_nextTime at_time)⟩, fun entry mem =>
      calm entry (List.mem_filter.mp mem).1⟩
  | cons task rest =>
    rw [ready] at next
    obtain rfl := Option.some.inj next
    have mem : task ∈ p.ready := ready ▸ List.mem_cons_self
    have left := tended.ran env mem
    rw [runNext]
    rcases stops : advance env task.id (task.what.elim p.world (p.world.note task.id)) p.keys
      task.workflow with ⟨w, q, stop⟩
    rw [stops] at left
    simp only
    obtain ⟨_, same, _, fresh, ran, waits, ends⟩ := explained.ran ready stops
    obtain ⟨after, d', sound, shown, keys, fits⟩ := left
    have later : p.world.now ≤ w.now := Nat.le_of_eq same.symm
    have distinct := Desk.nodup_lineWith (tended.distinct.erase task.id)
      tended.distinct.not_mem_erase stop
    cases stop with
    | waits waiting =>
      have apart := (ran.putWaiting fresh (waits waiting rfl)).apart
      have awaits : after.Awaits waiting := fits
      have put := tended.put explained.apart ready p.ended sound shown later keys distinct
        (List.forall_mem_singleton.mpr ⟨rfl, awaits⟩)
        (Desk.mem_lineWith (line.erase task.id) task.id waiting) (Phase.ne_granted_of_awaits awaits)
      exact .inl (put.guarded_callOut apart)
    | ended result =>
      have apart := (ran.putEnded (e := ⟨task.id, w.now, result⟩) fresh (ends result rfl)).apart
      have idle : after = .idle := fits
      have nothing : ∀ entry ∈ ([] : List (Nat × Waiting platform α)),
          entry.1 = task.id ∧ after.Awaits entry.2 := List.forall_mem_nil _
      have put := tended.put explained.apart ready (⟨task.id, w.now, result⟩ :: p.ended) sound shown
        later keys distinct nothing (fun i => by simp [Desk.lineWith]) (fun c => by simp [idle])
      rw [List.append_nil] at put
      simp only
      -- The end of one session may be final, and is the turn of the next otherwise.
      split
      · exact .inr ⟨⟨d'.log, sound.secured shown⟩, rfl, rfl⟩
      · exact .inl (put.guarded_callOut apart).startNext

/-- **Whatever a pool reaches is guarded**, or dropped. -/
theorem reaches (h : Guarded configured base p) (explained : Explained env ps w₀ p trace)
    {isFinal : α → Bool} {p' : Pool platform σ α} (reaches : Reaches env isFinal p p') :
    Guarded configured base p' ∨ Dropped configured base p' := by
  induction reaches with
  | refl => exact .inl h
  | @step q q' order before perm next ih =>
    rcases ih with guarded | dropped
    · obtain ⟨more, explained⟩ := explained.reaches before
      exact (guarded.reorder perm).step (explained.reorder perm) isFinal next
    · obtain rfl := List.perm_nil.mp (dropped.ready ▸ perm).symm
      rw [← dropped.ready] at next
      exact nomatch next.symm.trans (dropped.step env isFinal)

/-- A guarded pool has a secured log, and while a session waits in line with none ready, a fetch of
the key is under way. -/
theorem secured (h : Guarded configured base p) :
    ∃ log, p.world.Secured configured base log ∧ (p.ready = [] →
      ∀ i limit next, (i, .inLine limit next) ∈ p.waiting → flights log ≠ []) := by
  obtain ⟨⟨line, phase, d, tended⟩, calm⟩ := h
  refine ⟨d.log, tended.sound.secured tended.shown, fun ready i limit next mem => ?_⟩
  have member := tended.inLine i limit next mem
  -- All those in line wait, and the desk has no answer for them.
  have unanswered {j : Nat} (inLine : j ∈ line) : d.call j = none := by
    rcases tended.placed j inLine with ⟨limit, next, here⟩ | isReady
    · have none := calm _ here
      rw [tended.shown.key, tended.keys, called_inLine] at none
      exact Option.map_eq_none_iff.mp none
    · rw [ready] at isReady
      exact absurd isReady List.not_mem_nil
  rw [tended.sound.flying, Desk.held]
  cases tended.sound.queued with
  | known known _ =>
    obtain ⟨key, known⟩ := Option.ne_none_iff_exists'.mp known
    have none := unanswered member
    rw [Desk.call, known] at none
    cases none
  | passed first unknown turn split =>
    have none := unanswered (split ▸ List.mem_cons_self)
    rw [Desk.call, unknown] at none
    cases (if_pos turn).symm.trans none
  | kept _ _ taken fetching =>
    cases holder : d.keys.holder with
    | none => exact absurd holder (taken (List.ne_nil_of_mem member))
    | some j =>
      -- Who holds the queue fetches the key, and would be ready if it had not asked for it.
      have fetches := fetching j holder
      have rests := tended.sound.resting j (Option.some_ne_none j).symm
      show (phase j).flight?.toList ≠ []
      cases at_phase : phase j with
      | asking c number => exact List.cons_ne_nil _ _
      | granted c =>
        have here := tended.turn j c at_phase
        rw [ready] at here
        exact absurd here List.not_mem_nil
      | idle | holding _ | told _ _ => exact (at_phase ▸ fetches).elim
      | announced _ | fetched _ _ | failed => exact (at_phase ▸ rests).elim

end Guarded

/-- A pool of sessions that obey the phases starts guarded. -/
theorem guarded_start (w : World platform σ) (limit : Nat) {ps : List (Workflow platform α)}
    (obeys : ∀ p ∈ ps, p.Obeys endsIdle .idle) : Guarded w.key w.past (start w limit ps) := by
  have task {task : Ready platform α} (mem : task ∈ ps.zipIdx.map fun entry =>
      ⟨entry.2, none, entry.1⟩) : task.what = none ∧ task.workflow.Obeys endsIdle .idle := by
    obtain ⟨⟨p, id⟩, here, rfl⟩ := List.mem_map.mp mem
    exact ⟨rfl, obeys p (List.mem_of_getElem? (List.mem_zipIdx_iff_getElem?.mp here))⟩
  refine ⟨⟨[], fun _ => .idle, ⟨[], w.key, .free⟩, Desk.sound_start w.key, ⟨rfl, rfl⟩, rfl,
    List.nodup_nil, fun t mem => ?_, fun t _ => nofun, List.forall_mem_nil _, fun t mem => ?_, nofun,
    nofun, nofun⟩, List.forall_mem_nil _⟩
  · obtain ⟨nothing, obeys⟩ := task (List.mem_of_mem_take mem)
    rw [nothing]
    exact obeys
  · obtain ⟨nothing, obeys⟩ := task (List.mem_of_mem_drop mem)
    exact ⟨rfl, nothing, obeys⟩

/-- **Sessions side by side that obey the phases** leave a secured log, in whatever order they run, and
while one of them waits in line with none ready, a fetch of the key is under way. -/
theorem secured_of_reaches {env : Environment platform σ} {w : World platform σ} {limit : Nat}
    {isFinal : α → Bool} {ps : List (Workflow platform α)} {p : Pool platform σ α}
    (obeys : ∀ p ∈ ps, p.Obeys endsIdle .idle) (reaches : Reaches env isFinal (start w limit ps) p) :
    ∃ log, p.world.Secured w.key w.past log ∧ (p.ready = [] → ∀ i limit' next,
      (i, .inLine limit' next) ∈ p.waiting → flights log ≠ []) := by
  rcases (guarded_start w limit obeys).reaches (explained_start env w limit ps) reaches with
    guarded | dropped
  · exact guarded.secured
  · obtain ⟨log, secured⟩ := dropped.secured
    refine ⟨log, secured, fun _ i limit' next mem => ?_⟩
    rw [dropped.waiting] at mem
    exact absurd mem List.not_mem_nil

end Pool

end CertifiedCalls
