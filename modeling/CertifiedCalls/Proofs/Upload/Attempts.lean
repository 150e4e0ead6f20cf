import CertifiedCalls.Proofs.Upload.Storing
import CertifiedCalls.Proofs.Workflow.Ledger

/-! # Attempts at chunks
What a record says about single chunks: which of its entries are about a chunk of an index, and in
which order chunks were first sent. The entries about one chunk are **attempts**, one after the other,
of which only the last may be unanswered or have stored the chunk (`Upload.Attempted`). -/

namespace CertifiedCalls

/-- The request that something that happens is about. -/
def Happening.request? {I : Interface} : Happening I → Option I.Request
  | .said _ => none
  | .asked _ r => some r
  | .answered _ r _ => some r
  | .abandoned _ r => some r

namespace Upload

/-! ### Entries about chunks -/

/-- The index of the chunk that an entry is about, if it is about one. -/
def chunkOf (entry : Entry storage) : Option UInt32 :=
  match entry.what.request? with
  | some (.store _ args) => some args.index
  | _ => none

/-- The index of the chunk that an entry says was sent, if it says so. -/
def sentChunk (entry : Entry storage) : Option UInt32 :=
  match entry.what with
  | .asked _ (.store _ args) => some args.index
  | _ => none

/-- The answer that an entry says a chunk got, if it says so. -/
def chunkAnswer (entry : Entry storage) : Option (Except FailedCall ChunkReply) :=
  match entry.what with
  | .answered _ (.store _ _) answer => some answer
  | _ => none

/-- Whether an entry says that a chunk was sent. -/
def isSending (entry : Entry storage) : Bool := (sentChunk entry).isSome

/-- Whether an entry says that a chunk was answered as stored. -/
def isStored (entry : Entry storage) : Bool := (chunkAnswer entry).any storedBy

/-- Whether an entry says that a chunk was answered otherwise. -/
def isFault (entry : Entry storage) : Bool := (chunkAnswer entry).any fun answer => !storedBy answer

/-- What is about no request sends no chunk. -/
theorem sentChunk_of_no_request {entry : Entry storage} (quiet : entry.what.request? = none) :
    sentChunk entry = none := by
  obtain ⟨time, caller, what⟩ := entry
  cases what with
  | asked number r => exact nomatch quiet
  | said _ | answered _ _ _ | abandoned _ _ => rfl

/-- A chunk is sent. -/
def chunkSent (bucket : CanisterId) (args : ChunkArgs) (number : Nat) : Happening storage :=
  .asked number (.store bucket args)

/-- A chunk is answered. -/
def chunkAnswered (bucket : CanisterId) (args : ChunkArgs) (number : Nat)
    (answer : Except FailedCall ChunkReply) : Happening storage :=
  .answered (I := storage) number (.store bucket args) answer

@[simp] theorem isFault_chunkAnswered (time caller number : Nat) (bucket : CanisterId)
    (args : ChunkArgs) (answer : Except FailedCall ChunkReply) :
    isFault ⟨time, caller, chunkAnswered bucket args number answer⟩ = !storedBy answer := rfl

/-- What a record says **about the chunk** of an index. -/
def aboutChunk (index : UInt32) (record : List (Entry storage)) : List (Entry storage) :=
  record.filter fun entry => chunkOf entry = some index

/-- How often the chunk of an index was sent. -/
def sendings (index : UInt32) (record : List (Entry storage)) : Nat :=
  (aboutChunk index record).countP isSending

/-- How often the chunk of an index was answered as not stored. -/
def faults (index : UInt32) (record : List (Entry storage)) : Nat :=
  (aboutChunk index record).countP isFault

/-- The indices of chunks in the order in which they were **first sent**. -/
def startOrder (record : List (Entry storage)) : List UInt32 :=
  (record.filterMap sentChunk).eraseDups

theorem aboutChunk_append (index : UInt32) (front back : List (Entry storage)) :
    aboutChunk index (front ++ back) = aboutChunk index front ++ aboutChunk index back :=
  List.filter_append front back

theorem sendings_append (index : UInt32) (front back : List (Entry storage)) :
    sendings index (front ++ back) = sendings index front + sendings index back := by
  rw [sendings, aboutChunk_append, List.countP_append]
  rfl

/-- A chunk is first sent when it has not been sent before. -/
theorem startOrder_concat (log : List (Entry storage)) {entry : Entry storage} {index : UInt32}
    (sent : sentChunk entry = some index) :
    startOrder (log ++ [entry])
      = if index ∈ startOrder log then startOrder log else startOrder log ++ [index] := by
  have one : [entry].filterMap sentChunk = [index] := List.filterMap_cons_some sent
  rw [startOrder, List.filterMap_append, List.eraseDups_append, one]
  change startOrder log ++ _ = _
  by_cases before : index ∈ startOrder log
  · have none : [index].removeAll (log.filterMap sentChunk) = [] := by
      simpa [List.removeAll] using List.mem_eraseDups.mp before
    rw [none, if_pos before]
    exact List.append_nil _
  · have first : [index].removeAll (log.filterMap sentChunk) = [index] := by
      simpa [List.removeAll] using fun mem => before (List.mem_eraseDups.mpr mem)
    rw [first, if_neg before]
    rfl

/-- The entries of a record that are about requests. -/
def exchanges (record : List (Entry storage)) : List (Entry storage) :=
  record.filter fun entry => entry.what.request?.isSome

theorem exchanges_append (front back : List (Entry storage)) :
    exchanges (front ++ back) = exchanges front ++ exchanges back :=
  List.filter_append front back

/-- Remarks are about no requests. -/
@[simp] theorem exchanges_remarks (time caller : Nat) (es : List Event) :
    exchanges (remarks time caller es) = [] := by
  refine List.filter_eq_nil_iff.mpr fun entry mem => ?_
  obtain ⟨e, _, rfl⟩ := List.mem_map.mp mem
  exact Bool.false_ne_true

/-- One more entry is at the end of a list, or the split of the list is inside the rest. -/
theorem split_concat {A : Type} {es front back : List A} {x e : A}
    (h : es ++ [x] = front ++ e :: back) :
    (back = [] ∧ e = x ∧ front = es) ∨ ∃ back', es = front ++ e :: back' := by
  rcases List.eq_nil_or_concat back with rfl | ⟨back', y, rfl⟩
  · obtain ⟨same, last⟩ := List.append_inj_right' h.symm rfl, List.append_inj_left' h rfl
    exact .inl ⟨rfl, by simpa using same, last.symm⟩
  · refine .inr ⟨back', ?_⟩
    have h : es ++ [x] = (front ++ e :: back') ++ [y] := by
      rw [h, List.concat_eq_append, List.append_assoc, List.cons_append]
    exact List.append_inj_left' h rfl

/-! ### Attempts -/

/-- Where the attempts at a chunk stand. -/
inductive Standing where
  /-- All of them have failed. -/
  | failing
  /-- The last one is under way, as the request of a number. -/
  | asking (number : Nat)
  /-- The last one has stored the chunk. -/
  | stored

/-- How many of so many attempts have failed. -/
def Standing.faults : Standing → Nat → Nat
  | .failing, made => made
  | _, made => made - 1

/-- Entries are **attempts** of a caller to store a chunk, each made when the one before has failed.
The answer to each attempt is one that its number may give. -/
inductive Attempted (bucket : CanisterId) (args : ChunkArgs) (caller : Nat)
    (gives : Nat → Except FailedCall ChunkReply → Prop) :
    Nat → Standing → List (Entry storage) → Prop where
  /-- No attempt has been made. -/
  | none : Attempted bucket args caller gives 0 .failing []
  /-- An attempt is made at the time when the one before has failed. -/
  | ask {made time : Nat} {es : List (Entry storage)} (number : Nat)
    (failed : Attempted bucket args caller gives made .failing es)
    (at_once : ∀ e, es.getLast? = some e → e.time = time) :
    Attempted bucket args caller gives (made + 1) (.asking number)
      (es ++ [⟨time, caller, chunkSent bucket args number⟩])
  /-- It fails. -/
  | fail {made number : Nat} {es : List (Entry storage)} (time : Nat)
    {answer : Except FailedCall ChunkReply}
    (asked : Attempted bucket args caller gives made (.asking number) es) (given : gives made answer)
    (failed : storedBy answer = false) :
    Attempted bucket args caller gives made .failing
      (es ++ [⟨time, caller, chunkAnswered bucket args number answer⟩])
  /-- It stores the chunk. -/
  | store {made number : Nat} {es : List (Entry storage)} (time : Nat)
    {answer : Except FailedCall ChunkReply}
    (asked : Attempted bucket args caller gives made (.asking number) es) (given : gives made answer)
    (stored : storedBy answer = true) :
    Attempted bucket args caller gives made .stored
      (es ++ [⟨time, caller, chunkAnswered bucket args number answer⟩])

namespace Attempted

variable {bucket : CanisterId} {args : ChunkArgs} {caller made : Nat}
  {gives : Nat → Except FailedCall ChunkReply → Prop} {standing : Standing}
  {es front back : List (Entry storage)} {e : Entry storage}

/-- An attempt that is under way has been made. -/
theorem pos {number : Nat} (h : Attempted bucket args caller gives made (.asking number) es) :
    0 < made := by
  cases h
  exact Nat.succ_pos _

/-- Each attempt sends the chunk once. -/
theorem countP_isSending (h : Attempted bucket args caller gives made standing es) :
    es.countP isSending = made := by
  induction h with
  | none => rfl
  | ask number _ _ ih => rw [List.countP_append, ih]; rfl
  | fail time _ _ _ ih | store time _ _ _ ih => rw [List.countP_append, ih]; rfl

/-- Each that has failed was answered so. -/
theorem countP_isFault (h : Attempted bucket args caller gives made standing es) :
    es.countP isFault = standing.faults made := by
  induction h with
  | none => rfl
  | ask number _ _ ih => rw [List.countP_append, ih]; rfl
  | fail time asked _ failed ih =>
    rw [List.countP_append, ih, List.countP_singleton, isFault_chunkAnswered, failed]
    exact Nat.sub_add_cancel asked.pos
  | store time _ _ stored ih =>
    rw [List.countP_append, ih, List.countP_singleton, isFault_chunkAnswered, stored]
    rfl

/-- Unless the last one has stored the chunk, none has. -/
theorem isStored_eq_false (h : Attempted bucket args caller gives made standing es)
    (open_yet : standing ≠ .stored) : ∀ e ∈ es, isStored e = false := by
  induction h with
  | none => exact List.forall_mem_nil _
  | ask number _ _ ih =>
    exact List.forall_mem_append.mpr ⟨ih nofun, List.forall_mem_singleton.mpr rfl⟩
  | fail time _ _ failed ih =>
    exact List.forall_mem_append.mpr ⟨ih nofun, List.forall_mem_singleton.mpr failed⟩
  | store => exact absurd rfl open_yet

/-- Where all have failed, the last entry says so. -/
theorem exists_last (h : Attempted bucket args caller gives made .failing es) :
    es = [] ∨ ∃ before last, es = before ++ [last] ∧ isFault last = true := by
  cases h with
  | none => exact .inl rfl
  | fail time _ _ failed => exact .inr ⟨_, _, rfl, Bool.not_eq_true' _ |>.mpr failed⟩

/-- A chunk is **sent again** only at the time when it was answered as not stored. -/
theorem sequential (h : Attempted bucket args caller gives made standing es)
    (split : es = front ++ e :: back) (sends : isSending e = true) :
    front = [] ∨ ∃ before last, front = before ++ [last] ∧ isFault last = true ∧ last.time = e.time := by
  induction h generalizing back with
  | none => simp at split
  | @ask made time es number failed at_once ih =>
    rcases split_concat split with ⟨_, rfl, rfl⟩ | ⟨back', split⟩
    · rcases failed.exists_last with rfl | ⟨before, last, rfl, fault⟩
      · exact .inl rfl
      · exact .inr ⟨before, last, rfl, fault, at_once last List.getLast?_concat⟩
    · exact ih split
  | fail _ _ _ _ ih | store _ _ _ _ ih =>
    rcases split_concat split with ⟨_, rfl, _⟩ | ⟨back', split⟩
    · exact nomatch sends
    · exact ih split

/-- Nothing comes **after the answer** that the chunk is stored. -/
theorem nothing_after (h : Attempted bucket args caller gives made standing es)
    (split : es = front ++ e :: back) (stored : isStored e = true) : back = [] := by
  have here {back : List (Entry storage)} : e ∈ front ++ e :: back :=
    List.mem_append_right _ List.mem_cons_self
  cases h with
  | none => simp at split
  | ask number failed _ =>
    rcases split_concat split with ⟨rfl, _⟩ | ⟨back', rfl⟩
    · rfl
    · exact absurd stored (Bool.not_eq_true _ |>.mpr (failed.isStored_eq_false nofun e here))
  | fail _ asked _ _ | store _ asked _ _ =>
    rcases split_concat split with ⟨rfl, _⟩ | ⟨back', rfl⟩
    · rfl
    · exact absurd stored (Bool.not_eq_true _ |>.mpr (asked.isStored_eq_false nofun e here))

/-- Each attempt that has failed was given an answer of its number. -/
theorem exists_fault (h : Attempted bucket args caller gives made standing es) {attempt : Nat}
    (pos : 0 < attempt) (le : attempt ≤ standing.faults made) :
    ∃ answer, gives attempt answer ∧ storedBy answer = false := by
  induction h with
  | none => exact absurd pos (Nat.not_lt.mpr le)
  | ask number _ _ ih => exact ih le
  | @fail made _ _ _ answer _ given failed ih =>
    rcases Nat.lt_or_eq_of_le le with less | rfl
    · exact ih (Nat.le_sub_one_of_lt less)
    · exact ⟨answer, given, failed⟩
  | store _ _ _ _ ih => exact ih le

/-- So was the one that has stored the chunk. -/
theorem exists_stored (h : Attempted bucket args caller gives made .stored es) :
    0 < made ∧ ∃ answer, gives made answer ∧ storedBy answer = true := by
  cases h with
  | store _ asked given stored => exact ⟨asked.pos, _, given, stored⟩

end Attempted

end Upload

end CertifiedCalls
