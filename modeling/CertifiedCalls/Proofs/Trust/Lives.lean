import CertifiedCalls.Proofs.Trust.Pools
import CertifiedCalls.Proofs.Upload.Storing
import CertifiedCalls.Upload.Client

/-! # The life of an agent
An agent is **used** by sessions that make queries and updates. Its **life** is made up of bouts, in
each of which one session runs alone or several run side by side, and of which each begins in the
world that the last has left. An upload is a part of such a life (`Life.upload`). -/

namespace CertifiedCalls

open Workflow (Obeys endsIdle)

variable {σ α : Type}

/-- A session **uses** an agent: it makes queries and updates one after the other, records events,
looks at the clock, and sleeps. -/
inductive Agent.Uses (a : Agent) : Workflow platform α → Prop
  /-- It has a result. -/
  | done (result : α) : Agent.Uses a (.done result)
  /-- It has given up. -/
  | unfinished : Agent.Uses a .unfinished
  /-- It records an event. -/
  | emit (e : Event) {next : Workflow platform α} (rest : Agent.Uses a next) :
    Agent.Uses a (.emit e next)
  /-- It looks at the clock. -/
  | clock {next : Nat → Workflow platform α} (rest : ∀ now, Agent.Uses a (next now)) :
    Agent.Uses a (.clock next)
  /-- It sleeps. -/
  | sleep (nanos : Nat) {next : Workflow platform α} (rest : Agent.Uses a next) :
    Agent.Uses a (.sleep nanos next)
  /-- It makes a query. -/
  | query {β : Type} (c : Call) (mapper : Mapper Value β)
    {next : Except FailedCall β → Workflow platform α} (rest : ∀ outcome, Agent.Uses a (next outcome)) :
    Agent.Uses a ((a.query c mapper).bind next)
  /-- It makes an update. -/
  | update {β : Type} (c : Call) (mapper : Mapper Value β)
    {next : Except FailedCall β → Workflow platform α} (rest : ∀ outcome, Agent.Uses a (next outcome)) :
    Agent.Uses a ((a.update c mapper).bind next)

/-- What has happened in a world **since** another, the latest first. -/
def World.since {I : Interface} (before after : World I σ) : List (Entry I) :=
  after.past.take (after.past.length - before.past.length)

/-- The **life** of an agent in an environment: the logs of its bouts, the latest first, and the world
that they have led to. -/
inductive Life (a : Agent) (env : Environment platform σ) (state : σ) :
    List (List (Entry platform)) → World platform σ → Prop
  /-- Nothing has happened yet. -/
  | start : Life a env state [] (.start state a.config.rootKey)
  /-- One session has run alone. -/
  | alone {α : Type} {logs : List (List (Entry platform))} {w : World platform σ}
    (before : Life a env state logs w) {p : Workflow platform α} (uses : a.Uses p) :
    Life a env state (w.since (p.run env w).1 :: logs) (p.run env w).1
  /-- Sessions have run side by side, so many at a time and in whatever order. What was left of them
  then was dropped. -/
  | together {α : Type} {logs : List (List (Entry platform))} {w : World platform σ}
    (before : Life a env state logs w) {ps : List (Workflow platform α)} (uses : ∀ p ∈ ps, a.Uses p)
    {limit : Nat} {isFinal : α → Bool} {pool : Pool platform σ α}
    (reaches : Pool.Reaches env isFinal (Pool.start w limit ps) pool) :
    Life a env state (w.since pool.world :: logs) pool.world

/-- A query uses the agent that makes it. -/
theorem Agent.uses_query {β : Type} (a : Agent) (c : Call) (mapper : Mapper Value β) :
    a.Uses (a.query c mapper) := by
  have uses := Agent.Uses.query (a := a) c mapper fun outcome => .done outcome
  rw [Workflow.bind_done] at uses
  exact uses

/-- So does an update. -/
theorem Agent.uses_update {β : Type} (a : Agent) (c : Call) (mapper : Mapper Value β) :
    a.Uses (a.update c mapper) := by
  have uses := Agent.Uses.update (a := a) c mapper fun outcome => .done outcome
  rw [Workflow.bind_done] at uses
  exact uses

/-- A session that uses an agent obeys the phases. -/
theorem Agent.Uses.obeys {a : Agent} {p : Workflow platform α} (uses : a.Uses p) :
    p.Obeys endsIdle .idle := by
  induction uses with
  | done result => exact rfl
  | unfinished => exact rfl
  | emit e _ ih => exact .inl ⟨rfl, ih⟩
  | clock _ ih => exact ih
  | sleep nanos _ ih => exact ⟨rfl, ih⟩
  | query c mapper _ ih => exact (obeys_query a c mapper).bind_idle ih
  | update c mapper _ ih => exact (obeys_update a c mapper).bind_idle ih

/-- What has happened since is what was put on top of the record. -/
theorem World.since_of_past {I : Interface} {before after : World I σ} {log : List (Entry I)}
    (past : after.past = log ++ before.past) : before.since after = log := by
  rw [World.since, past, List.length_append, Nat.add_sub_cancel, List.take_left]

namespace Life

variable {a : Agent} {env : Environment platform σ} {state : σ}
  {logs : List (List (Entry platform))} {w : World platform σ}

/-- A life in which each bout is **secured**, given the key that was known before it. -/
structure Secured (configured : Option Bytes) (logs : List (List (Entry platform)))
    (w : World platform σ) : Prop where
  /-- The record is made up of the logs. -/
  past : w.past = logs.flatten
  /-- The agent keeps the configured key, or else the first that was fetched. -/
  key : w.key = keyIn configured logs.flatten
  /-- In each bout a fetch is only made for a certificate at hand, with which its caller goes on when
  it succeeds; and a certificate that presses for the key, as none is known and nobody else has one at
  hand to fetch it for, is followed by a fetch, also when others have failed before. -/
  bouts : ∀ later log earlier, logs = later ++ log :: earlier →
    Trusted (keyIn configured earlier.flatten) log ∧ AtRest (keyIn configured earlier.flatten) log

/-- One more bout. -/
theorem Secured.cons {configured : Option Bytes} (h : Secured configured logs w)
    {w' : World platform σ} {log : List (Entry platform)}
    (bout : w'.Secured w.key w.past log) : Secured configured (w.since w' :: logs) w' := by
  rw [World.since_of_past bout.past]
  refine ⟨?_, ?_, fun later log' earlier split => ?_⟩
  · rw [bout.past, h.past, List.flatten_cons]
  · rw [List.flatten_cons, keyIn_append, ← h.key, bout.key]
  · cases later with
    | nil =>
      obtain ⟨rfl, rfl⟩ := List.cons.inj split
      rw [← h.key]
      exact ⟨bout.trusted, bout.rest⟩
    | cons first later => exact h.bouts later log' earlier (List.cons.inj split).2

/-- **Each bout of a life is secured.** -/
theorem secured (life : Life a env state logs w) : Secured a.config.rootKey logs w := by
  induction life with
  | start => exact ⟨rfl, rfl, fun later log earlier split => by simp at split⟩
  | alone _ uses ih =>
    obtain ⟨log, bout⟩ := Workflow.secured_run env _ uses.obeys
    exact ih.cons bout
  | together _ uses reaches ih =>
    obtain ⟨log, bout, _⟩ := Pool.secured_of_reaches (fun p mem => (uses p mem).obeys) reaches
    exact ih.cons bout

end Life

/-! ### Uploads -/

namespace Upload

variable {a : Agent}

/-- Events may come first. -/
theorem uses_sayAll_bind (es : List Event) {next : Workflow platform α} (rest : a.Uses next) :
    a.Uses ((sayAll es).bind fun _ => next) := by
  induction es with
  | nil => exact rest
  | cons e es ih => exact .emit e ih

/-- A request to the storage behind an agent is a query or an update of the agent. -/
theorem uses_through_bind (index : CanisterId) (r : StorageRequest)
    {next : Except FailedCall r.Result → Workflow platform α} (rest : ∀ answer, a.Uses (next answer)) :
    a.Uses ((StorageClient.through a index r).bind next) := by
  cases r with
  | allocate args => exact .query _ _ rest
  | store bucket args => exact .update _ _ rest

/-- Asking for a place uses the agent behind which the storage is. -/
theorem uses_allocate (index : CanisterId) (u : Upload) :
    a.Uses (u.allocate.run.through (StorageClient.through a index)) := by
  rw [through_allocate]
  exact uses_through_bind index _ fun answer => uses_sayAll_bind _ (.done _)

/-- So does trying to store a chunk. -/
theorem uses_tryChunk (index bucket : CanisterId) (args : ChunkArgs) (left attempt : Nat) :
    a.Uses ((tryChunk bucket args left attempt).run.through (StorageClient.through a index)) := by
  -- On the attempts that are left.
  induction left generalizing attempt with
  | zero =>
    rw [through_tryChunk]
    refine uses_through_bind index _ fun answer => uses_sayAll_bind _ ?_
    split
    · exact .done _
    · exact .done _
  | succ left ih =>
    rw [through_tryChunk]
    refine uses_through_bind index _ fun answer => uses_sayAll_bind _ ?_
    split
    · exact .done _
    · exact ih (attempt + 1)

/-- So does every chunk of an upload. -/
theorem uses_chunkWorkflows (index : CanisterId) (u : Upload) (c : UploadConfig) (plan : UploadPlan) :
    ∀ p ∈ u.chunkWorkflows (StorageClient.through a index) c plan, a.Uses p := by
  intro p mem
  obtain ⟨chunk, _, rfl⟩ := List.mem_map.mp mem
  exact uses_tryChunk index _ _ _ _

end Upload

/-- **An upload is a part of the life of the agent** through which it is made: the allocation runs
alone, and then the chunks side by side. -/
theorem Life.upload {a : Agent} {env : Environment platform σ} {state : σ}
    {logs : List (List (Entry platform))} {w : World platform σ} (life : Life a env state logs w)
    (u : Upload) (index : CanisterId) (steps : Nat) (c : UploadConfig) :
    ∃ more, Life a env state (more ++ logs)
      (u.run (StorageClient.through a index) env steps c w).1 := by
  have allocated := life.alone (Upload.uses_allocate index u)
  unfold Upload.run
  split
  · rename_i w₁ ran
    rw [ran] at allocated
    exact ⟨[_], allocated⟩
  · rename_i w₁ failure ran
    rw [ran] at allocated
    exact ⟨[_], allocated⟩
  · rename_i w₁ plan file ran
    rw [ran] at allocated
    have stored := allocated.together (Upload.uses_chunkWorkflows index u c plan)
      (Pool.reaches_run env Upload.isFinal (Pool.start w₁ c.concurrency _) steps)
    have same : (u.runChunks (StorageClient.through a index) env steps c plan w₁).1
        = ((Pool.start w₁ c.concurrency (u.chunkWorkflows (StorageClient.through a index) c
          plan)).run env Upload.isFinal steps).world := rfl
    rw [← same] at stored
    split
    · rename_i w₂ chunks
      rw [chunks] at stored
      exact ⟨[_, _], stored⟩
    · rename_i w₂ failure chunks
      rw [chunks] at stored
      exact ⟨[_, _], stored⟩
    · rename_i w₂ chunks
      rw [chunks] at stored
      have said : a.Uses (Workflow.say (Upload.completeEvent plan)) := .emit _ (.done ())
      exact ⟨[_, _, _], stored.alone said⟩

end CertifiedCalls
