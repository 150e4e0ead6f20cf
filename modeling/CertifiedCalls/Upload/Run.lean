import CertifiedCalls.Upload.Storage
import CertifiedCalls.Workflow.Pool
import CertifiedCalls.Workflow.Run

/-! # Running uploads
An upload first runs alone until it has a plan. Then its chunks run side by side, so many at a time,
started in the order of their indices; the first that fails ends the upload, and those under way are
dropped. -/

namespace CertifiedCalls

/-- How the requests to a storage are made over another interface. -/
abbrev StorageClient (J : Interface) := (r : StorageRequest) → Workflow J (Except FailedCall r.Result)

/-- The storage itself. -/
def StorageClient.direct : StorageClient storage := StorageRequest.ask

namespace Upload

variable {J : Interface} {σ : Type}

/-- Whether an outcome ends the upload. -/
def isFinal (outcome : Except UploadFailure Unit) : Bool :=
  match outcome with
  | .ok _ => false
  | .error _ => true

/-- The workflow of every chunk. -/
def chunkWorkflows (u : Upload) (client : StorageClient J) (c : UploadConfig) (p : UploadPlan) :
    List (Workflow J (Except UploadFailure Unit)) :=
  p.chunks.map fun chunk => (u.storeChunk c p chunk).run.through client

/-- The pool of an upload's chunks. -/
def chunkPool (u : Upload) (client : StorageClient J) (c : UploadConfig) (p : UploadPlan)
    (w : World J σ) : Pool J σ (Except UploadFailure Unit) :=
  .start w c.concurrency (u.chunkWorkflows client c p)

/-- What the chunks have come to, if all have ended or one has failed. -/
def chunksOutcome (count : Nat) (ended : List (Ended (Except UploadFailure Unit))) :
    Option (Except UploadFailure Unit) :=
  match ended.findSome? fun e => e.result.filter isFinal with
  | some failure => some failure
  | none => if (ended.filter fun e => e.result.isSome).length = count then some (.ok ()) else none

/-- Stores every chunk, with at most so many steps. -/
def runChunks (u : Upload) (client : StorageClient J) (env : Environment J σ) (steps : Nat)
    (c : UploadConfig) (p : UploadPlan) (w : World J σ) :
    World J σ × Option (Except UploadFailure Unit) :=
  let pool := (u.chunkPool client c p w).run env isFinal steps
  (pool.world, chunksOutcome p.chunks.length pool.ended)

/-- **Runs** an upload, with at most so many steps for its chunks, which gives the world afterwards
and the outcome, if there is one. -/
def run (u : Upload) (client : StorageClient J) (env : Environment J σ) (steps : Nat)
    (c : UploadConfig) (w : World J σ) : World J σ × Option (Except UploadFailure UploadedFile) :=
  match (u.allocate.run.through client).run env w with
  | (w, none) => (w, none)
  | (w, some (.error failure)) => (w, some (.error failure))
  | (w, some (.ok (plan, file))) =>
    match u.runChunks client env steps c plan w with
    | (w, none) => (w, none)
    | (w, some (.error failure)) => (w, some (.error failure))
    | (w, some (.ok ())) => (w.note 0 (.said (completeEvent plan)), some (.ok file))

/-- Runs uploads one after the other, which gives the world afterwards, and when and with what
outcome each of them ended. -/
def runInTurn (client : StorageClient J) (env : Environment J σ) (steps : Nat) (c : UploadConfig) :
    World J σ → List Upload → World J σ × List (Nat × Option (Except UploadFailure UploadedFile))
  | w, [] => (w, [])
  | w, u :: rest =>
    let (w, outcome) := u.run client env steps c w
    let (last, outcomes) := runInTurn client env steps c w rest
    (last, (w.now, outcome) :: outcomes)

end Upload

end CertifiedCalls
