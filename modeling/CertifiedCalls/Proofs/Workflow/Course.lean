import CertifiedCalls.Workflow.World

/-! # Courses of workflows
A **course** is one way in which a workflow goes on, whatever answers its requests and however its
claims on the shared key end: from one workflow and time to another, with the **acts** in between.
The courses of two workflows one after the other are those of the first followed by those of the
second (`Course.of_bind`). -/

namespace CertifiedCalls

/-- What a workflow **does**. -/
inductive Deed (I : Interface) where
  /-- Something happens that the record keeps. -/
  | kept (what : Happening I)
  /-- A claim on the shared key ends. -/
  | claimed (outcome : Claim)
  /-- It makes the shared key known. -/
  | published (key : Bytes)
  /-- It leaves it to others to fetch the shared key. -/
  | released

/-- An **act**: what a workflow does at a time. -/
structure Act (I : Interface) where
  /-- When it is done. -/
  time : Nat
  /-- Which workflow does it. -/
  caller : Nat
  /-- What is done. -/
  deed : Deed I

variable {I : Interface}

/-- The entry of the record that an act leaves, if it leaves one. -/
def Act.entry? (a : Act I) : Option (Entry I) :=
  match a.deed with
  | .kept what => some ⟨a.time, a.caller, what⟩
  | _ => none

/-- The entries that acts leave. -/
def kept (acts : List (Act I)) : List (Entry I) := acts.filterMap Act.entry?

/-- The acts of one workflow. -/
def own (id : Nat) (acts : List (Act I)) : List (Act I) := acts.filter fun a => a.caller = id

@[simp] theorem kept_nil : kept ([] : List (Act I)) = [] := rfl

@[simp] theorem kept_append (as bs : List (Act I)) : kept (as ++ bs) = kept as ++ kept bs :=
  List.filterMap_append

@[simp] theorem kept_cons_kept (t id : Nat) (what : Happening I) (acts : List (Act I)) :
    kept (⟨t, id, .kept what⟩ :: acts) = ⟨t, id, what⟩ :: kept acts := rfl

@[simp] theorem own_append (id : Nat) (as bs : List (Act I)) :
    own id (as ++ bs) = own id as ++ own id bs := List.filter_append _ _

/-- Something was **done** among acts. -/
def Did (acts : List (Act I)) (deed : Deed I) : Prop := ∃ a ∈ acts, a.deed = deed

/-- What was done among acts was done in front or after. -/
theorem did_append {as bs : List (Act I)} {deed : Deed I} :
    Did (as ++ bs) deed ↔ Did as deed ∨ Did bs deed := by
  simp only [Did, List.mem_append, or_and_right, exists_or]

/-- What was done in front was done. -/
theorem Did.left {as bs : List (Act I)} {deed : Deed I} (h : Did as deed) : Did (as ++ bs) deed :=
  did_append.mpr (.inl h)

/-- What was done after was done. -/
theorem Did.right {as bs : List (Act I)} {deed : Deed I} (h : Did bs deed) : Did (as ++ bs) deed :=
  did_append.mpr (.inr h)

/-- What was done after one act was done. -/
theorem Did.cons {first : Act I} {rest : List (Act I)} {deed : Deed I} (h : Did rest deed) :
    Did (first :: rest) deed :=
  let ⟨a, mem, e⟩ := h
  ⟨a, List.mem_cons_of_mem _ mem, e⟩

/-- Each deed of one kind is **preceded** by one of another kind. -/
def Preceded (late early : Deed I → Prop) (acts : List (Act I)) : Prop :=
  ∀ as a bs, acts = as ++ a :: bs → late a.deed → ∃ b ∈ as, early b.deed

namespace Preceded

variable {late early : Deed I → Prop} {a : Act I} {acts as bs : List (Act I)}

/-- No deed of the kind is done. -/
theorem of_none (none : ∀ a ∈ acts, ¬ late a.deed) : Preceded late early acts := by
  rintro as a bs rfl deed
  exact absurd deed (none a (List.mem_append_right _ List.mem_cons_self))

/-- The first act precedes all others. -/
theorem of_first (ne : ¬ late a.deed) (first : early a.deed) : Preceded late early (a :: acts) := by
  intro as b bs e deed
  cases as with
  | nil =>
    obtain ⟨rfl, _⟩ := List.cons.inj e
    exact absurd deed ne
  | cons c as =>
    obtain ⟨rfl, _⟩ := List.cons.inj e
    exact ⟨a, List.mem_cons_self, first⟩

/-- One more act of another kind comes first. -/
theorem cons (ne : ¬ late a.deed) (h : Preceded late early acts) :
    Preceded late early (a :: acts) := by
  intro as b bs e deed
  cases as with
  | nil =>
    obtain ⟨rfl, _⟩ := List.cons.inj e
    exact absurd deed ne
  | cons c as =>
    obtain ⟨_, e⟩ := List.cons.inj e
    obtain ⟨d, mem, first⟩ := h as b bs e deed
    exact ⟨d, List.mem_cons_of_mem _ mem, first⟩

/-- What holds in front and after holds of both together. -/
theorem append (front : Preceded late early as) (after : Preceded late early bs) :
    Preceded late early (as ++ bs) := by
  intro cs a ds e deed
  rcases List.append_eq_append_iff.mp e with ⟨more, rfl, rest⟩ | ⟨more, rfl, rest⟩
  -- The deed is done after.
  · obtain ⟨b, mem, first⟩ := after more a ds rest deed
    exact ⟨b, List.mem_append_right _ mem, first⟩
  -- The deed is done in front, or it is the first that is done after, which nothing precedes there.
  · cases more with
    | nil =>
      obtain ⟨b, mem, _⟩ := after [] a ds rest.symm deed
      exact absurd mem List.not_mem_nil
    | cons c more =>
      obtain ⟨rfl, _⟩ := List.cons.inj rest
      exact front cs a more rfl deed

/-- What holds of acts holds of those in front. -/
theorem left (h : Preceded late early (as ++ bs)) : Preceded late early as := by
  rintro cs a ds rfl deed
  exact h cs a (ds ++ bs) (by rw [List.append_assoc, List.cons_append]) deed

/-- A deed of the one kind comes with one of the other. -/
theorem exists_of_mem (h : Preceded late early acts) (mem : a ∈ acts) (deed : late a.deed) :
    ∃ b ∈ acts, early b.deed := by
  obtain ⟨as, bs, rfl⟩ := List.append_of_mem mem
  obtain ⟨b, mem, first⟩ := h as a bs rfl deed
  exact ⟨b, List.mem_append_left _ mem, first⟩

end Preceded

/-- An entry was left by an act of the same workflow at the same time. -/
theorem mem_kept_iff {entry : Entry I} {acts : List (Act I)} :
    entry ∈ kept acts ↔ ⟨entry.time, entry.caller, .kept entry.what⟩ ∈ acts := by
  rw [kept, List.mem_filterMap]
  constructor
  · rintro ⟨⟨t, id, deed⟩, mem, e⟩
    cases deed with
    | kept what =>
      obtain rfl := Option.some.inj e
      exact mem
    | _ => simp [Act.entry?] at e
  · intro mem
    exact ⟨_, mem, rfl⟩

/-- What was done and is kept left an entry. -/
theorem Did.exists_entry {acts : List (Act I)} {what : Happening I} (h : Did acts (.kept what)) :
    ∃ entry ∈ kept acts, entry.what = what := by
  obtain ⟨⟨t, id, deed⟩, mem, rfl⟩ := h
  exact ⟨⟨t, id, what⟩, mem_kept_iff.mpr mem, rfl⟩

/-- The acts of a workflow among its own. -/
theorem own_of_all {id : Nat} {acts : List (Act I)} (all : ∀ a ∈ acts, a.caller = id) :
    own id acts = acts :=
  List.filter_eq_self.mpr fun a mem => decide_eq_true (all a mem)

/-- The acts of a workflow among those of another. -/
theorem own_of_ne {id other : Nat} (ne : id ≠ other) {acts : List (Act I)}
    (all : ∀ a ∈ acts, a.caller = other) : own id acts = [] :=
  List.filter_eq_nil_iff.mpr fun a mem e => ne ((of_decide_eq_true e).symm.trans (all a mem))

/-- The entries that one workflow's acts leave are those that name it. -/
theorem kept_own (id : Nat) (acts : List (Act I)) :
    kept (own id acts) = (kept acts).filter fun entry => entry.caller = id := by
  rw [kept, kept, own, List.filter_filterMap, List.filterMap_filter]
  congr 1
  funext ⟨t, caller, deed⟩
  cases deed <;> simp [Act.entry?, Option.filter]

variable {α β : Type}

/-- A **course** of a workflow. -/
inductive Course (id : Nat) : Workflow I α → Nat → List (Act I) → Workflow I α → Nat → Prop
  /-- Nothing is done. -/
  | here (p : Workflow I α) (t : Nat) : Course id p t [] p t
  /-- An event is recorded. -/
  | emit {e : Event} {next q : Workflow I α} {t u : Nat} {acts : List (Act I)}
    (rest : Course id next t acts q u) :
    Course id (.emit e next) t (⟨t, id, .kept (.said e)⟩ :: acts) q u
  /-- The clock is looked at. -/
  | clock {next : Nat → Workflow I α} {q : Workflow I α} {t u : Nat} {acts : List (Act I)}
    (rest : Course id (next t) t acts q u) : Course id (.clock next) t acts q u
  /-- Time passes. -/
  | sleep {nanos : Nat} {next q : Workflow I α} {t u : Nat} {acts : List (Act I)}
    (rest : Course id next (t + nanos) acts q u) : Course id (.sleep nanos next) t acts q u
  /-- A request is made and answered in time. -/
  | answered {r : I.Request} {limit : Option Nat} {next : Option (I.Answer r) → Workflow I α}
    {q : Workflow I α} {t u : Nat} {acts : List (Act I)} (number delay : Nat) (answer : I.Answer r)
    (inTime : isInTime t delay limit = true)
    (rest : Course id (next (some answer)) (t + delay) acts q u) :
    Course id (.request r limit next) t
      (⟨t, id, .kept (.asked number r)⟩ :: ⟨t + delay, id, .kept (.answered number r answer)⟩
        :: acts) q u
  /-- A request is made and given up. -/
  | abandoned {r : I.Request} {limit : Option Nat} {next : Option (I.Answer r) → Workflow I α}
    {q : Workflow I α} {t u : Nat} {acts : List (Act I)} (number delay : Nat)
    (late : isInTime t delay limit = false)
    (rest : Course id (next none) (lapseTime t limit) acts q u) :
    Course id (.request r limit next) t
      (⟨t, id, .kept (.asked number r)⟩ :: ⟨lapseTime t limit, id, .kept (.abandoned number r)⟩
        :: acts) q u
  /-- The shared key is claimed, and the claim ends at once, before the limit or at it. -/
  | claim {limit : Option Nat} {next : Claim → Workflow I α} {q : Workflow I α} {t u : Nat}
    {acts : List (Act I)} (outcome : Claim) (wait : Nat)
    (inTime : outcome ≠ .lapsed → isInTime t wait limit = true)
    (late : outcome = .lapsed → limit.isSome ∧ t + wait = lapseTime t limit)
    (rest : Course id (next outcome) (t + wait) acts q u) :
    Course id (.claim limit next) t (⟨t + wait, id, .claimed outcome⟩ :: acts) q u
  /-- The shared key is made known. -/
  | publish {key : Bytes} {next q : Workflow I α} {t u : Nat} {acts : List (Act I)}
    (rest : Course id next t acts q u) :
    Course id (.publish key next) t (⟨t, id, .published key⟩ :: acts) q u
  /-- It is left to others to fetch the shared key. -/
  | release {next q : Workflow I α} {t u : Nat} {acts : List (Act I)}
    (rest : Course id next t acts q u) :
    Course id (.release next) t (⟨t, id, .released⟩ :: acts) q u

namespace Course

variable {id t u v : Nat} {p q r : Workflow I α} {acts as bs : List (Act I)}

/-- One course after another. -/
theorem trans (first : Course id p t as q u) (second : Course id q u bs r v) :
    Course id p t (as ++ bs) r v := by
  -- On the first course: what it ends with is where the second begins.
  induction first with
  | here => exact second
  | emit _ ih => exact .emit (ih second)
  | clock _ ih => exact .clock (ih second)
  | sleep _ ih => exact .sleep (ih second)
  | answered number delay answer inTime _ ih => exact .answered number delay answer inTime (ih second)
  | abandoned number delay late _ ih => exact .abandoned number delay late (ih second)
  | claim outcome wait inTime late _ ih => exact .claim outcome wait inTime late (ih second)
  | publish _ ih => exact .publish (ih second)
  | release _ ih => exact .release (ih second)

/-- All acts of a course are the workflow's own. -/
theorem caller_eq (h : Course id p t acts q u) : ∀ a ∈ acts, a.caller = id := by
  induction h with
  | here => exact List.forall_mem_nil _
  | emit _ ih | publish _ ih | release _ ih => exact List.forall_mem_cons.mpr ⟨rfl, ih⟩
  | clock _ ih | sleep _ ih => exact ih
  | answered _ _ _ _ _ ih | abandoned _ _ _ _ ih =>
    exact List.forall_mem_cons.mpr ⟨rfl, List.forall_mem_cons.mpr ⟨rfl, ih⟩⟩
  | claim _ _ _ _ _ ih => exact List.forall_mem_cons.mpr ⟨rfl, ih⟩

/-- A request that was answered was made. -/
theorem asked_of_answered (h : Course id p t acts q u) {number : Nat} {request : I.Request}
    {answer : I.Answer request} (did : Did acts (.kept (.answered number request answer))) :
    Did acts (.kept (.asked number request)) := by
  -- On the course: an answer stands next to its request, and what is in front changes nothing.
  have onwards {first : Act I} {rest : List (Act I)}
      (ne : first.deed ≠ .kept (.answered number request answer))
      (ih : Did rest (.kept (.answered number request answer)) →
        Did rest (.kept (.asked number request)))
      (did : Did (first :: rest) (.kept (.answered number request answer))) :
      Did (first :: rest) (.kept (.asked number request)) := by
    obtain ⟨a, mem, e⟩ := did
    rcases List.mem_cons.mp mem with rfl | mem
    · exact absurd e ne
    · exact (ih ⟨a, mem, e⟩).cons
  induction h with
  | here =>
    obtain ⟨_, none, _⟩ := did
    exact absurd none List.not_mem_nil
  | emit _ ih | claim _ _ _ _ _ ih | publish _ ih | release _ ih => exact onwards nofun ih did
  | clock _ ih | sleep _ ih => exact ih did
  | answered n delay other _ _ ih =>
    obtain ⟨a, mem, e⟩ := did
    rcases List.mem_cons.mp mem with rfl | mem
    · exact nomatch e
    rcases List.mem_cons.mp mem with rfl | mem
    · obtain ⟨rfl, rfl, _⟩ := Happening.answered.inj (Deed.kept.inj e)
      exact ⟨_, List.mem_cons_self, rfl⟩
    · exact (ih ⟨a, mem, e⟩).cons.cons
  | abandoned _ _ _ _ ih => exact onwards nofun (onwards nofun ih) did

/-- A workflow that has ended does nothing more. -/
theorem of_done {a : α} (h : Course id (.done a) t acts q u) :
    acts = [] ∧ q = .done a ∧ u = t := by
  cases h
  exact ⟨rfl, rfl, rfl⟩

/-- Nor does one that has given up. -/
theorem of_unfinished (h : Course id .unfinished t acts q u) :
    acts = [] ∧ q = .unfinished ∧ u = t := by
  cases h
  exact ⟨rfl, rfl, rfl⟩

/-- A course of one workflow after another is one of the first, or one of the first to its end and
then one of the second. -/
theorem of_bind {f : α → Workflow I β} {q : Workflow I β}
    (h : Course id (p.bind f) t acts q u) :
    (∃ p', q = p'.bind f ∧ Course id p t acts p' u) ∨
      ∃ a as bs v, acts = as ++ bs ∧ Course id p t as (.done a) v ∧ Course id (f a) v bs q u := by
  -- On the first workflow. Either the course stops within it, or it comes to its end and the rest is
  -- the second's; whatever the first does is put in front of both outcomes.
  induction p generalizing t acts with
  | done a => exact .inr ⟨a, [], acts, t, rfl, .here _ _, h⟩
  | unfinished =>
    cases h
    exact .inl ⟨.unfinished, rfl, .here _ _⟩
  | emit e next ih =>
    obtain _ | rest := h
    · exact .inl ⟨.emit e next, rfl, .here _ _⟩
    · rcases ih rest with ⟨p', e, h⟩ | ⟨a, as, bs, v, rfl, first, second⟩
      · exact .inl ⟨p', e, .emit h⟩
      · exact .inr ⟨a, _ :: as, bs, v, rfl, .emit first, second⟩
  | clock next ih =>
    obtain _ | _ | rest := h
    · exact .inl ⟨.clock next, rfl, .here _ _⟩
    · rcases ih t rest with ⟨p', e, h⟩ | ⟨a, as, bs, v, rfl, first, second⟩
      · exact .inl ⟨p', e, .clock h⟩
      · exact .inr ⟨a, as, bs, v, rfl, .clock first, second⟩
  | sleep nanos next ih =>
    obtain _ | _ | _ | rest := h
    · exact .inl ⟨.sleep nanos next, rfl, .here _ _⟩
    · rcases ih rest with ⟨p', e, h⟩ | ⟨a, as, bs, v, rfl, first, second⟩
      · exact .inl ⟨p', e, .sleep h⟩
      · exact .inr ⟨a, as, bs, v, rfl, .sleep first, second⟩
  | request r limit next ih =>
    cases h with
    | here => exact .inl ⟨.request r limit next, rfl, .here _ _⟩
    | answered number delay answer inTime rest =>
      rcases ih _ rest with ⟨p', e, h⟩ | ⟨a, as, bs, v, rfl, first, second⟩
      · exact .inl ⟨p', e, .answered number delay answer inTime h⟩
      · exact .inr ⟨a, _ :: _ :: as, bs, v, rfl, .answered number delay answer inTime first, second⟩
    | abandoned number delay late rest =>
      rcases ih _ rest with ⟨p', e, h⟩ | ⟨a, as, bs, v, rfl, first, second⟩
      · exact .inl ⟨p', e, .abandoned number delay late h⟩
      · exact .inr ⟨a, _ :: _ :: as, bs, v, rfl, .abandoned number delay late first, second⟩
  | claim limit next ih =>
    cases h with
    | here => exact .inl ⟨.claim limit next, rfl, .here _ _⟩
    | claim outcome wait inTime late rest =>
      rcases ih _ rest with ⟨p', e, h⟩ | ⟨a, as, bs, v, rfl, first, second⟩
      · exact .inl ⟨p', e, .claim outcome wait inTime late h⟩
      · exact .inr ⟨a, _ :: as, bs, v, rfl, .claim outcome wait inTime late first, second⟩
  | publish key next ih =>
    cases h with
    | here => exact .inl ⟨.publish key next, rfl, .here _ _⟩
    | publish rest =>
      rcases ih rest with ⟨p', e, h⟩ | ⟨a, as, bs, v, rfl, first, second⟩
      · exact .inl ⟨p', e, .publish h⟩
      · exact .inr ⟨a, _ :: as, bs, v, rfl, .publish first, second⟩
  | release next ih =>
    cases h with
    | here => exact .inl ⟨.release next, rfl, .here _ _⟩
    | release rest =>
      rcases ih rest with ⟨p', e, h⟩ | ⟨a, as, bs, v, rfl, first, second⟩
      · exact .inl ⟨p', e, .release h⟩
      · exact .inr ⟨a, _ :: as, bs, v, rfl, .release first, second⟩

/-- A course of one workflow after another that comes to an end goes through the end of the
first. -/
theorem of_bind_done {f : α → Workflow I β} {b : β}
    (h : Course id (p.bind f) t acts (.done b) u) :
    ∃ a as bs v, acts = as ++ bs ∧ Course id p t as (.done a) v ∧
      Course id (f a) v bs (.done b) u := by
  rcases of_bind h with ⟨p', e, h⟩ | both
  -- A course that stops within the first has ended only where both end at once.
  · cases p' with
    | done a =>
      refine ⟨a, acts, [], u, (List.append_nil _).symm, h, ?_⟩
      rw [Workflow.done_bind] at e
      rw [← e]
      exact .here _ _
    | _ => simp [Workflow.bind] at e
  · exact both

/-! ### Elementary workflows -/

/-- Sleeping only takes time. -/
theorem of_pause {nanos : Nat} {x : Unit}
    (h : Course (I := I) id (Workflow.pause nanos) t acts (.done x) u) :
    acts = [] ∧ u = t + nanos := by
  obtain _ | _ | _ | rest := h
  obtain ⟨rfl, _, rfl⟩ := rest.of_done
  exact ⟨rfl, rfl⟩

/-- Looking at the clock tells the time. -/
theorem of_now {n : Nat} (h : Course (I := I) id Workflow.now t acts (.done n) u) :
    acts = [] ∧ n = t ∧ u = t := by
  obtain _ | _ | rest := h
  obtain ⟨rfl, e, rfl⟩ := rest.of_done
  exact ⟨rfl, Workflow.done.inj e, rfl⟩

/-- Recording an event takes no time. -/
theorem of_say {e : Event} {x : Unit}
    (h : Course (I := I) id (Workflow.say e) t acts (.done x) u) :
    acts = [⟨t, id, .kept (.said e)⟩] ∧ u = t := by
  obtain _ | rest := h
  obtain ⟨rfl, _, rfl⟩ := rest.of_done
  exact ⟨rfl, rfl⟩

/-- A request without a limit is answered. -/
theorem of_ask {r : I.Request} {a : I.Answer r} (h : Course id (Workflow.ask r) t acts (.done a) u) :
    ∃ number delay, u = t + delay ∧
      acts = [⟨t, id, .kept (.asked number r)⟩, ⟨u, id, .kept (.answered number r a)⟩] := by
  cases h with
  | answered number delay answer inTime rest =>
    obtain ⟨rfl, e, rfl⟩ := rest.of_done
    obtain rfl := Workflow.done.inj e
    exact ⟨number, delay, rfl, rfl⟩
  -- A request without a limit that is given up would leave the workflow unfinished.
  | abandoned number delay late rest => nomatch rest

/-- A request with a limit is answered in time or given up. -/
theorem of_askWithin {limit : Option Nat} {r : I.Request} {a : Option (I.Answer r)}
    (h : Course id (Workflow.askWithin limit r) t acts (.done a) u) :
    (∃ answer number delay, a = some answer ∧ isInTime t delay limit = true ∧ u = t + delay ∧
        acts = [⟨t, id, .kept (.asked number r)⟩, ⟨u, id, .kept (.answered number r answer)⟩]) ∨
      ∃ number delay, a = none ∧ isInTime t delay limit = false ∧ u = lapseTime t limit ∧
        acts = [⟨t, id, .kept (.asked number r)⟩, ⟨u, id, .kept (.abandoned number r)⟩] := by
  cases h with
  | answered number delay answer inTime rest =>
    obtain ⟨rfl, e, rfl⟩ := rest.of_done
    exact .inl ⟨answer, number, delay, (Workflow.done.inj e), inTime, rfl, rfl⟩
  | abandoned number delay late rest =>
    obtain ⟨rfl, e, rfl⟩ := rest.of_done
    exact .inr ⟨number, delay, (Workflow.done.inj e), late, rfl, rfl⟩

/-- A claim on the shared key ends some time. -/
theorem of_claimKey {limit : Option Nat} {c : Claim}
    (h : Course (I := I) id (Workflow.claimKey limit) t acts (.done c) u) :
    t ≤ u ∧ acts = [⟨u, id, .claimed c⟩] := by
  cases h with
  | claim outcome wait inTime late rest =>
    obtain ⟨rfl, e, rfl⟩ := rest.of_done
    obtain rfl := Workflow.done.inj e
    exact ⟨Nat.le_add_right t wait, rfl⟩

/-! ### Stretches that may fail -/

section Stretches

variable {ε : Type}

/-- A stretch after one that may fail. -/
theorem run_bind (x : ExceptT ε (Workflow I) α) (f : α → ExceptT ε (Workflow I) β) :
    (x >>= f).run = x.run.bind fun outcome =>
      match outcome with
      | .ok a => (f a).run
      | .error e => .done (.error e) := by
  show x.run.bind (ExceptT.bindCont f) = _
  congr 1
  funext outcome
  cases outcome <;> rfl

/-- A stretch after one that cannot fail. -/
theorem run_lift_bind (w : Workflow I α) (f : α → ExceptT ε (Workflow I) β) :
    (ExceptT.lift w >>= f).run = w.bind fun a => (f a).run := by
  rw [run_bind]
  show (w.bind fun a => .done (Except.ok a : Except ε α)).bind _ = _
  rw [Workflow.bind_assoc]
  rfl

/-- The course of a stretch after one that cannot fail. -/
theorem of_lift_bind_done {w : Workflow I α} {f : α → ExceptT ε (Workflow I) β}
    {out : Except ε β} (h : Course id (ExceptT.lift w >>= f).run t acts (.done out) u) :
    ∃ a as bs v, acts = as ++ bs ∧ Course id w t as (.done a) v ∧
      Course id (f a).run v bs (.done out) u := by
  rw [run_lift_bind] at h
  exact of_bind_done h

/-- The course of a stretch after one that may fail: it fails with the first, or it goes on. -/
theorem of_except_bind_done {x : ExceptT ε (Workflow I) α} {f : α → ExceptT ε (Workflow I) β}
    {out : Except ε β} (h : Course id (x >>= f).run t acts (.done out) u) :
    (∃ e, out = .error e ∧ Course id x.run t acts (.done (.error e)) u) ∨
      ∃ a as bs v, acts = as ++ bs ∧ Course id x.run t as (.done (.ok a)) v ∧
        Course id (f a).run v bs (.done out) u := by
  rw [run_bind] at h
  obtain ⟨outcome, as, bs, v, rfl, first, second⟩ := of_bind_done h
  cases outcome with
  | ok a => exact .inr ⟨a, as, bs, v, rfl, first, second⟩
  -- After a failure nothing more is done.
  | error e =>
    obtain ⟨rfl, same, rfl⟩ := second.of_done
    rw [List.append_nil]
    exact .inl ⟨e, Workflow.done.inj same, first⟩

end Stretches

end Course

/-! ### Confinement -/

/-- A deed keeps **within** requests and keys. -/
def Deed.Within (asks : I.Request → Prop) (publishes : Bytes → Prop) : Deed I → Prop
  | .kept (.asked _ r) => asks r
  | .published key => publishes key
  | _ => True

/-- What keeps within requests and keys keeps within more of them. -/
theorem Deed.Within.mono {asks more : I.Request → Prop} {publishes others : Bytes → Prop} {d : Deed I}
    (h : d.Within asks publishes) (asked : ∀ r, asks r → more r)
    (published : ∀ key, publishes key → others key) : d.Within more others := by
  match d with
  | .kept (.asked _ r) => exact asked r h
  | .published key => exact published key h
  | .kept (.said _) | .kept (.answered _ _ _) | .kept (.abandoned _ _) | .claimed _ | .released =>
    trivial

namespace Workflow

variable {asks : I.Request → Prop} {publishes : Bytes → Prop}

/-- A workflow is **confined** to requests and keys when it can make no other request and publish no
other key. -/
def Confined (asks : I.Request → Prop) (publishes : Bytes → Prop) : Workflow I α → Prop
  | .done _ | .unfinished => True
  | .emit _ next | .sleep _ next | .release next => next.Confined asks publishes
  | .clock next => ∀ now, (next now).Confined asks publishes
  | .request r _ next => asks r ∧ ∀ answer, (next answer).Confined asks publishes
  | .claim _ next => ∀ outcome, (next outcome).Confined asks publishes
  | .publish key next => publishes key ∧ next.Confined asks publishes

/-- Whatever a confined workflow does keeps to its requests and keys. -/
theorem Confined.of_course {p q : Workflow I α} {id t u : Nat} {acts : List (Act I)}
    (confined : p.Confined asks publishes) (h : Course id p t acts q u) :
    ∀ a ∈ acts, a.deed.Within asks publishes := by
  -- On the course: each answer and each outcome of a claim leaves a confined workflow.
  induction h with
  | here => exact List.forall_mem_nil _
  | emit _ ih | release _ ih => exact List.forall_mem_cons.mpr ⟨trivial, ih confined⟩
  | clock _ ih => exact ih (confined _)
  | sleep _ ih => exact ih confined
  | answered _ _ _ _ _ ih | abandoned _ _ _ _ ih =>
    exact List.forall_mem_cons.mpr
      ⟨confined.1, List.forall_mem_cons.mpr ⟨trivial, ih (confined.2 _)⟩⟩
  | claim _ _ _ _ _ ih => exact List.forall_mem_cons.mpr ⟨trivial, ih (confined _)⟩
  | publish _ ih => exact List.forall_mem_cons.mpr ⟨confined.1, ih confined.2⟩

variable {records : Event → Prop}

/-- A workflow **keeps to** events, requests and keys when it can record no other event, make no other
request and publish no other key. -/
def Keeps (records : Event → Prop) (asks : I.Request → Prop) (publishes : Bytes → Prop) :
    Workflow I α → Prop
  | .done _ | .unfinished => True
  | .emit e next => records e ∧ next.Keeps records asks publishes
  | .sleep _ next | .release next => next.Keeps records asks publishes
  | .clock next => ∀ now, (next now).Keeps records asks publishes
  | .request r _ next => asks r ∧ ∀ answer, (next answer).Keeps records asks publishes
  | .claim _ next => ∀ outcome, (next outcome).Keeps records asks publishes
  | .publish key next => publishes key ∧ next.Keeps records asks publishes

namespace Keeps

/-- A workflow that keeps to requests and keys is confined to them. -/
theorem confined {p : Workflow I α} (keeps : p.Keeps records asks publishes) :
    p.Confined asks publishes := by
  induction p with
  | done _ | unfinished => trivial
  | emit _ _ ih => exact ih keeps.2
  | sleep _ _ ih | release _ ih => exact ih keeps
  | clock _ ih => exact fun now => ih now (keeps now)
  | request _ _ _ ih => exact ⟨keeps.1, fun answer => ih answer (keeps.2 answer)⟩
  | claim _ _ ih => exact fun outcome => ih outcome (keeps outcome)
  | publish _ _ ih => exact ⟨keeps.1, ih keeps.2⟩

/-- Whatever it records is one of its events. -/
theorem records_of_course {p q : Workflow I α} {id t u : Nat} {acts : List (Act I)}
    (keeps : p.Keeps records asks publishes) (h : Course id p t acts q u) :
    ∀ a ∈ acts, ∀ e, a.deed = .kept (.said e) → records e := by
  -- On the course: each answer and each outcome of a claim leaves a workflow that keeps to the same.
  induction h with
  | here => exact List.forall_mem_nil _
  | emit _ ih =>
    refine List.forall_mem_cons.mpr ⟨?_, ih keeps.2⟩
    rintro e ⟨⟩
    exact keeps.1
  | clock _ ih => exact ih (keeps _)
  | sleep _ ih => exact ih keeps
  | answered _ _ _ _ _ ih | abandoned _ _ _ _ ih =>
    exact List.forall_mem_cons.mpr ⟨nofun, List.forall_mem_cons.mpr ⟨nofun, ih (keeps.2 _)⟩⟩
  | claim _ _ _ _ _ ih => exact List.forall_mem_cons.mpr ⟨nofun, ih (keeps _)⟩
  | publish _ ih => exact List.forall_mem_cons.mpr ⟨nofun, ih keeps.2⟩
  | release _ ih => exact List.forall_mem_cons.mpr ⟨nofun, ih keeps⟩

/-- Two workflows one after the other keep to what each of them keeps to. -/
theorem bind {p : Workflow I α} {f : α → Workflow I β} (first : p.Keeps records asks publishes)
    (second : ∀ a, (f a).Keeps records asks publishes) :
    (p.bind f).Keeps records asks publishes := by
  induction p with
  | done a => exact second a
  | unfinished => trivial
  | sleep _ _ ih | release _ ih => exact ih first
  | clock _ ih => exact fun now => ih now (first now)
  | request _ _ _ ih => exact ⟨first.1, fun answer => ih answer (first.2 answer)⟩
  | claim _ _ ih => exact fun outcome => ih outcome (first outcome)
  | emit _ _ ih | publish _ _ ih => exact ⟨first.1, ih first.2⟩

/-- The same of stretches that may fail. -/
theorem run_bind {ε : Type} {x : ExceptT ε (Workflow I) α} {f : α → ExceptT ε (Workflow I) β}
    (first : x.run.Keeps records asks publishes)
    (second : ∀ a, (f a).run.Keeps records asks publishes) :
    (x >>= f).run.Keeps records asks publishes := by
  rw [Course.run_bind]
  refine first.bind fun outcome => ?_
  cases outcome with
  | ok a => exact second a
  | error e => trivial

/-- The same of a stretch after one that cannot fail. -/
theorem run_lift_bind {ε : Type} {w : Workflow I α} {f : α → ExceptT ε (Workflow I) β}
    (first : w.Keeps records asks publishes) (second : ∀ a, (f a).run.Keeps records asks publishes) :
    (ExceptT.lift w >>= f).run.Keeps records asks publishes := by
  rw [Course.run_lift_bind]
  exact first.bind second

/-- Waiting for the answer to a request asks for nothing else. -/
theorem ask {r : I.Request} (asked : asks r) : (Workflow.ask r).Keeps records asks publishes :=
  ⟨asked, fun answer => by cases answer <;> trivial⟩

end Keeps

/-! ### Properties of all courses -/

/-- A property that the acts of **all courses** of a workflow have. -/
def Always (id : Nat) (P : List (Act I) → Prop) (p : Workflow I α) : Prop :=
  ∀ t acts q u, Course id p t acts q u → P acts

namespace Always

variable {id : Nat} {P : List (Act I) → Prop}

/-- A workflow that has ended has the property that no acts have. -/
theorem done (nothing : P []) (a : α) : (Workflow.done a : Workflow I α).Always id P := by
  intro t acts q u h
  obtain ⟨rfl, _⟩ := h.of_done
  exact nothing

/-- A property of all courses of two workflows is one of their courses one after the other. -/
theorem bind (together : ∀ as bs, P as → P bs → P (as ++ bs)) {p : Workflow I α}
    {f : α → Workflow I β} (first : p.Always id P) (second : ∀ a, (f a).Always id P) :
    (p.bind f).Always id P := by
  intro t acts q u h
  rcases h.of_bind with ⟨_, _, h⟩ | ⟨a, as, bs, v, rfl, before, after⟩
  · exact first _ _ _ _ h
  · exact together as bs (first _ _ _ _ before) (second a _ _ _ _ after)

/-- The same of stretches that may fail. -/
theorem run_bind {ε : Type} (nothing : P []) (together : ∀ as bs, P as → P bs → P (as ++ bs))
    {x : ExceptT ε (Workflow I) α} {f : α → ExceptT ε (Workflow I) β} (first : x.run.Always id P)
    (second : ∀ a, (f a).run.Always id P) : (x >>= f).run.Always id P := by
  rw [Course.run_bind]
  refine bind together first fun outcome => ?_
  cases outcome with
  | ok a => exact second a
  | error e => exact done nothing _

/-- The same of a stretch after one that cannot fail. -/
theorem run_lift_bind {ε : Type} (together : ∀ as bs, P as → P bs → P (as ++ bs))
    {w : Workflow I α} {f : α → ExceptT ε (Workflow I) β} (first : w.Always id P)
    (second : ∀ a, (f a).run.Always id P) : (ExceptT.lift w >>= f).run.Always id P := by
  rw [Course.run_lift_bind]
  exact bind together first second

end Always

end Workflow

end CertifiedCalls
