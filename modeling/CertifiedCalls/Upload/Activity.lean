import CertifiedCalls.Upload.Storage
import CertifiedCalls.Workflow.World

/-! # The activity of uploads
What a record says about chunks: which attempts were made at each, from when to when, and how many
were under way at once. -/

namespace CertifiedCalls

/-- An **attempt at a chunk**. -/
structure ChunkRun where
  /-- The bucket. -/
  bucket : CanisterId
  /-- What was sent. -/
  args : ChunkArgs
  /-- The number of the attempt among those at its index, from one. -/
  attempt : Nat
  /-- When it started. -/
  started : Nat
  /-- When it was answered, if it was. -/
  ended : Option Nat

/-- How many chunks of an index have been seen before. -/
def seenBefore (index : UInt32) (earlier : List ChunkRun) : Nat :=
  (earlier.filter fun run => run.args.index == index).length

/-- The attempts among requests to a storage, given the earlier ones, the latest first. -/
def chunkRunsAfter (earlier : List ChunkRun) : List (RequestRun storage) → List ChunkRun
  | [] => earlier.reverse
  | r :: rest =>
    match r.request with
    | .store bucket args =>
      let run := ⟨bucket, args, seenBefore args.index earlier + 1, r.asked, r.answered⟩
      chunkRunsAfter (run :: earlier) rest
    | .allocate _ => chunkRunsAfter earlier rest

/-- The attempts at chunks in a record, in the order in which they were made. -/
def chunkRuns (record : List (Entry storage)) : List ChunkRun :=
  chunkRunsAfter [] (requestsOf record)

/-- What the index was asked with in a record. -/
def allocationsOf (record : List (Entry storage)) : List AllocationArgs :=
  record.filterMap fun entry =>
    match entry.what with
    | .asked _ (.allocate args) => some args
    | _ => none

/-- How many chunks are under way after each entry of a record, starting with so many. -/
def inFlight : Nat → List (Entry storage) → List Nat
  | n, [] => [n]
  | n, entry :: rest =>
    match entry.what with
    | .asked _ (.store _ _) => n :: inFlight (n + 1) rest
    | .answered _ (.store _ _) _ => n :: inFlight (n - 1) rest
    | _ => inFlight n rest

/-- The most chunks that were under way at once. Those that were dropped stay under way. -/
def peakInFlight (record : List (Entry storage)) : Nat := (inFlight 0 record).foldl max 0

/-- The start or the end of an attempt at a chunk. -/
structure ChunkEvent where
  /-- When it is. -/
  time : Nat
  /-- The index of the chunk. -/
  index : Nat
  /-- The number of the attempt. -/
  attempt : Nat
  /-- Whether it is the end. -/
  isEnd : Bool
deriving DecidableEq, Repr

namespace ChunkEvent

/-- Whether one comes before another: by time, chunk and attempt, and a start before an end. -/
def before (a b : ChunkEvent) : Bool :=
  if a.time ≠ b.time then a.time < b.time
  else if a.index ≠ b.index then a.index < b.index
  else if a.attempt ≠ b.attempt then a.attempt < b.attempt
  else !a.isEnd && b.isEnd

/-- Puts one in its place. -/
def insertInto (e : ChunkEvent) : List ChunkEvent → List ChunkEvent
  | [] => [e]
  | other :: rest => if other.before e then other :: insertInto e rest else e :: other :: rest

/-- The starts and ends of attempts. -/
def ofRun (run : ChunkRun) : List ChunkEvent :=
  ⟨run.started, run.args.index.toNat, run.attempt, false⟩
    :: (run.ended.map fun t => ⟨t, run.args.index.toNat, run.attempt, true⟩).toList

/-- The starts and ends of attempts in their order. -/
def ofRuns (runs : List ChunkRun) : List ChunkEvent := (runs.flatMap ofRun).foldr insertInto []

end ChunkEvent

end CertifiedCalls
