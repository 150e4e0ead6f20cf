import CertifiedCalls.Proofs.Codec.Sendable
import CertifiedCalls.Proofs.Outcomes
import CertifiedCalls.Upload.Client

/-! # Messages of the storage on the wire
The octets of a request for a chunk tell, field by field, just what is sent with the chunk
(`ChunkArgs.told_of_encode`). A reply that is read as a place names this place
(`Allocation.namedIn_of_ofValue`), and one that is read as a stored chunk says no more than that
(`ChunkReply.eq_of_isStored`). -/

namespace CertifiedCalls

/-! ### Chunks -/

/-- What octets that are sent with a chunk **tell** in a field. -/
def chunkField (arg : Bytes) (name : String) : Option Value :=
  (ChunkArgs.schema.decode arg).toOption.bind (Value.get? name)

/-- The octets of the chunk that octets tell; none if they tell none. -/
def chunkBytes (arg : Bytes) : Bytes := ((chunkField arg "bytes").bind Value.bytes?).getD []

namespace ChunkArgs

variable {a : ChunkArgs}

/-- What is sent with a chunk is **small** when its lengths have 32 bits. -/
structure Small (a : ChunkArgs) : Prop where
  /-- The type of the content is short. -/
  mimeType : (Bytes.ofText a.mimeType).length < 4294967296
  /-- There are few accessors. -/
  accessors : a.accessors.length < 4294967296
  /-- The chunk is short. -/
  bytes : a.bytes.length < 4294967296

/-- Octets **tell** what is sent with a chunk when they tell each part of it. -/
structure Told (a : ChunkArgs) (arg : Bytes) : Prop where
  /-- They tell who may read the file. -/
  accessors : chunkField arg "accessors" = some (.array (a.accessors.map fun id => .bytes id.bytes))
  /-- They tell the index of the chunk. -/
  index : chunkField arg "chunk_index" = some (.nat a.index.toNat)
  /-- They tell the identifier of the file. -/
  fileId : chunkField arg "file_id" = some (.nat a.fileId.toNat)
  /-- They tell the hash of the file. -/
  hash : chunkField arg "hash" = some (.bytes a.hash.bytes)
  /-- They tell the type of the content. -/
  mimeType : chunkField arg "mime_type" = some (.text a.mimeType)
  /-- They tell the size of the file. -/
  totalSize : chunkField arg "total_size" = some (.nat a.totalSize.toNat)
  /-- They tell the octets of the chunk. -/
  bytes : chunkField arg "bytes" = some (.bytes a.bytes)
  /-- They tell the size of chunks. -/
  chunkSize : chunkField arg "chunk_size" = some (.nat a.chunkSize.toNat)
  /-- They tell when the file expires, if it does. -/
  expiry : chunkField arg "expiry" = a.expiry.map fun ms => .nat ms.toNat

/-- What is sent with a chunk is sendable when it is small. -/
theorem sendable_toValue (small : a.Small) : ChunkArgs.schema.Sendable a.toValue 2 := by
  have accessors : (Schema.array (.bytes none)).Sendable
      (.array (a.accessors.map fun id => .bytes id.bytes)) 1 := by
    refine .array trivial (by rw [List.length_map]; exact small.accessors) fun v mem => ?_
    obtain ⟨id, _, rfl⟩ := List.mem_map.mp mem
    exact .bytes rfl (Nat.lt_of_le_of_lt id.length_le (by decide))
  have word (n : UInt32) : (Schema.nat .bits32).Sendable (.nat n.toNat) 1 :=
    .number (Nat.le_of_lt_succ n.toNat_lt)
  have number (n : UInt64) : (Schema.nat .bits64).Sendable (.nat n.toNat) 1 :=
    .number (Nat.le_of_lt_succ n.toNat_lt)
  have hash : (Schema.bytes (some 32)).Sendable (.bytes a.hash.bytes) 1 :=
    .bytes (if_pos a.hash.length_eq) (by rw [a.hash.length_eq]; decide)
  have mimeType : Schema.text.Sendable (.text a.mimeType) 1 :=
    .text small.mimeType
  have bytes : (Schema.bytes none).Sendable (.bytes a.bytes) 1 :=
    .bytes rfl small.bytes
  have expiry : (Schema.optional (.nat .bits64)).Sendable
      (.optional (a.expiry.map fun ms => .nat ms.toNat)) 1 := by
    cases a.expiry with
    | none => exact .ofAbsent trivial
    | some ms => exact .ofPresent (number ms)
  -- The pairs that the value is gathered from match the fields of the schema in its order.
  refine .record ?_ (by decide) (by decide) (by decide)
  exact .cons accessors nofun <| .cons (word _) nofun <| .cons (number _) nofun <|
    .cons hash nofun <| .cons mimeType nofun <| .cons (number _) nofun <| .cons bytes nofun <|
    .cons (word _) nofun <| .cons expiry (fun _ => rfl) .nil

/-- The octets of a request for a small chunk are decoded to the value of the chunk. -/
theorem decode_of_encode (small : a.Small) {bucket : CanisterId} {layout : Layout} {arg : Bytes}
    (encoded : (a.call bucket).encode layout = .ok arg) :
    ChunkArgs.schema.decode arg = .ok a.toValue :=
  (sendable_toValue small).decode (by decide) (eq_ok_of_mapError_eq_ok encoded)

/-- Octets that are decoded to the value of a chunk tell what is sent with it. -/
theorem told_of_decode {arg : Bytes} (decoded : ChunkArgs.schema.decode arg = .ok a.toValue) :
    a.Told arg := by
  have told (name : String) : chunkField arg name = a.toValue.get? name := by
    rw [chunkField, decoded]
    rfl
  have gathered (name : String) := (told name).trans (Value.get?_recordOf (by simp [Fields.names]) name)
  exact {
    accessors := gathered "accessors"
    index := gathered "chunk_index"
    fileId := gathered "file_id"
    hash := gathered "hash"
    mimeType := gathered "mime_type"
    totalSize := gathered "total_size"
    bytes := gathered "bytes"
    chunkSize := gathered "chunk_size"
    expiry := by
      refine (gathered "expiry").trans ?_
      cases a.expiry <;> rfl }

/-- **The octets of a request for a small chunk tell what is sent with it.** -/
theorem told_of_encode (small : a.Small) {bucket : CanisterId} {layout : Layout} {arg : Bytes}
    (encoded : (a.call bucket).encode layout = .ok arg) : a.Told arg :=
  told_of_decode (decode_of_encode small encoded)

end ChunkArgs

/-! ### Reading replies -/

namespace ReplyReader

variable {α : Type} {record v : Value} {name path expected found tag : String}

/-- What is demanded and read is there. -/
theorem eq_some_of_demand {thing : Option α} {x : α} (h : demand path expected found thing = .ok x) :
    thing = some x := by
  cases thing with
  | none => exact nomatch h
  | some y => exact congrArg some (Except.ok.inj h)

/-- A reply is read from a value with a tag. -/
theorem eq_of_variant {payload : Option Value} (h : variant v = .ok (tag, payload)) :
    v = .variant tag payload := by
  have there := eq_some_of_demand h
  cases v with
  | variant t p =>
    obtain ⟨rfl, rfl⟩ := Prod.mk.inj (Option.some.inj there)
    rfl
  | _ => exact nomatch there

/-- A number that is read below a bound is there. -/
theorem eq_nat_of_filter {bound n : Nat}
    (h : v.nat?.filter (fun n => decide (n < bound)) = some n) : v = .nat n ∧ n < bound := by
  obtain ⟨there, lt⟩ := Option.filter_eq_some_iff.mp h
  cases v with
  | nat k =>
    obtain rfl := Option.some.inj there
    exact ⟨rfl, of_decide_eq_true lt⟩
  | _ => exact nomatch there

/-- The octets that are read in a field are there. -/
theorem get?_of_bytes {bs : Bytes} (h : bytes record name = .ok bs) :
    record.get? name = some (.bytes bs) := by
  obtain ⟨w, read, h⟩ := exists_of_bind_eq_ok h
  rw [eq_some_of_demand read]
  cases w with
  | bytes octets => rw [Option.some.inj (eq_some_of_demand h)]
  | _ => exact nomatch eq_some_of_demand h

/-- So is the number of 64 bits. -/
theorem get?_of_word64 {n : UInt64} (h : word64 record name = .ok n) :
    record.get? name = some (.nat n.toNat) := by
  obtain ⟨w, read, h⟩ := exists_of_bind_eq_ok h
  obtain ⟨m, small, rfl⟩ := Option.map_eq_some_iff.mp (eq_some_of_demand h)
  obtain ⟨rfl, lt⟩ := eq_nat_of_filter small
  rw [eq_some_of_demand read, UInt64.toNat_ofNat_of_lt' lt]

/-- So is the number of 32 bits. -/
theorem get?_of_word32 {n : UInt32} (h : word32 record name = .ok n) :
    record.get? name = some (.nat n.toNat) := by
  obtain ⟨w, read, h⟩ := exists_of_bind_eq_ok h
  obtain ⟨m, small, rfl⟩ := Option.map_eq_some_iff.mp (eq_some_of_demand h)
  obtain ⟨rfl, lt⟩ := eq_nat_of_filter small
  rw [eq_some_of_demand read, UInt32.toNat_ofNat_of_lt' lt]

/-- So are the octets of the bucket. -/
theorem get?_of_bucket {id : CanisterId} (h : bucket record = .ok id) :
    record.get? "canister_id" = some (.bytes id.bytes) := by
  obtain ⟨bs, read, h⟩ := exists_of_bind_eq_ok h
  rw [get?_of_bytes read]
  unfold CanisterId.ofBytes at h
  split at h
  · rename_i made
    split at made
    · obtain rfl := Except.ok.inj made
      obtain rfl := Except.ok.inj h
      rfl
    · cases made
  · cases h

/-- A reader is **final** when it fails in no way that may be tried again. -/
def Final (x : ReplyReader α) : Prop := ∀ cause, x = .error cause → cause.isRetryable = false

namespace Final

variable {β : Type}

/-- A demand is final. -/
theorem demand (path expected found : String) (thing : Option α) :
    Final (demand path expected found thing) := by
  intro cause h
  cases thing with
  | none =>
    obtain rfl := Except.error.inj h
    rfl
  | some _ => exact nomatch h

/-- Two final readers one after the other are final. -/
theorem bind {x : ReplyReader α} {f : α → ReplyReader β} (first : Final x) (second : ∀ a, Final (f a)) :
    Final (x >>= f) := by
  intro cause h
  cases x with
  | ok a => exact second a cause h
  | error e =>
    obtain rfl : e = cause := Except.error.inj h
    exact first e rfl

/-- Reading nothing more is final. -/
theorem pure (a : α) : Final (Pure.pure a) := fun _ h => nomatch h

/-- Reading the octets of a field is final. -/
theorem bytes (record : Value) (name : String) : Final (bytes record name) :=
  .bind (.demand _ _ _ _) fun _ => .demand _ _ _ _

/-- So is reading a number of 64 bits. -/
theorem word64 (record : Value) (name : String) : Final (word64 record name) :=
  .bind (.demand _ _ _ _) fun _ => .demand _ _ _ _

/-- So is reading a number of 32 bits. -/
theorem word32 (record : Value) (name : String) : Final (word32 record name) :=
  .bind (.demand _ _ _ _) fun _ => .demand _ _ _ _

/-- So is reading a bucket. -/
theorem bucket (record : Value) : Final (bucket record) := by
  refine .bind (bytes record _) fun bs => ?_
  cases CanisterId.ofBytes bs with
  | ok id => exact pure id
  | error e =>
    intro cause h
    obtain rfl := Except.error.inj h
    rfl

/-- So is reading an allowance. -/
theorem allowance (record : Value) : Final (allowance record) :=
  .bind (word64 _ _) fun _ => .bind (word64 _ _) fun _ => .bind (word64 _ _) fun _ =>
    .bind (word64 _ _) fun _ => pure _

/-- So is reading a place. -/
theorem allocation (record : Value) : Final (allocation record) :=
  .bind (bucket _) fun _ => .bind (word64 _ _) fun _ => .bind (word32 _ _) fun _ =>
    .bind (.demand _ _ _ _) fun _ => .bind (allowance _) fun _ => pure _

/-- **Reading an answer of the index is final.** -/
theorem ofValue (v : Value) : Final (AllocationReply.ofValue v) := by
  refine .bind (.demand _ _ _ _) fun ⟨tag, payload⟩ => ?_
  dsimp only
  split
  · exact .bind (.demand _ _ _ _) fun _ => .bind (allocation _) fun _ => pure _
  · exact .bind (.demand _ _ _ _) fun _ => .bind (allowance _) fun _ => pure _
  · exact pure _
  · exact pure _
  · intro cause h
    obtain rfl := Except.error.inj h
    rfl

end Final

end ReplyReader

open ReplyReader

/-- A value **names** a place when it is the success of the index with this place. -/
def Allocation.NamedIn (a : Allocation) (v : Value) : Prop :=
  ∃ p, v = .variant "Success" (some p) ∧ p.get? "canister_id" = some (.bytes a.bucket.bytes) ∧
    p.get? "file_id" = some (.nat a.fileId.toNat) ∧ p.get? "chunk_size" = some (.nat a.chunkSize.toNat)

/-- A place that is read from a record is named in it. -/
theorem get?_of_allocation {p : Value} {a : Allocation} (h : allocation p = .ok a) :
    p.get? "canister_id" = some (.bytes a.bucket.bytes) ∧
      p.get? "file_id" = some (.nat a.fileId.toNat) ∧
      p.get? "chunk_size" = some (.nat a.chunkSize.toNat) := by
  obtain ⟨bucket, bucket_read, h⟩ := exists_of_bind_eq_ok h
  obtain ⟨fileId, fileId_read, h⟩ := exists_of_bind_eq_ok h
  obtain ⟨chunkSize, chunkSize_read, h⟩ := exists_of_bind_eq_ok h
  obtain ⟨_, _, h⟩ := exists_of_bind_eq_ok h
  obtain ⟨_, _, h⟩ := exists_of_bind_eq_ok h
  obtain rfl := Except.ok.inj h
  exact ⟨get?_of_bucket bucket_read, get?_of_word64 fileId_read, get?_of_word32 chunkSize_read⟩

/-- **A reply that is read as a place names this place.** -/
theorem Allocation.namedIn_of_ofValue {a : Allocation} {v : Value}
    (h : AllocationReply.ofValue v = .ok (.success a)) : a.NamedIn v := by
  obtain ⟨⟨tag, payload⟩, read, rest⟩ := exists_of_bind_eq_ok h
  obtain rfl := eq_of_variant read
  dsimp only at rest
  split at rest
  · obtain ⟨p, demanded, rest⟩ := exists_of_bind_eq_ok rest
    obtain ⟨a', allocated, same⟩ := exists_of_bind_eq_ok rest
    obtain rfl := AllocationReply.success.inj (Except.ok.inj same)
    obtain rfl := eq_some_of_demand demanded
    exact ⟨p, rfl, get?_of_allocation allocated⟩
  · obtain ⟨_, _, rest⟩ := exists_of_bind_eq_ok rest
    obtain ⟨_, _, rest⟩ := exists_of_bind_eq_ok rest
    exact nomatch rest
  all_goals exact nomatch rest

/-- **A reply that is read as a stored chunk** says that it is stored now or was before, and no
more. -/
theorem ChunkReply.eq_of_isStored {v : Value} {reply : ChunkReply}
    (h : ChunkReply.ofValue v = .ok reply) (stored : reply.isStored = true)
    (accepted : ChunkReply.schema.check v = none) :
    v = .variant "Success" none ∨ v = .variant "ChunkAlreadyExists" none := by
  obtain ⟨⟨tag, payload⟩, read, rest⟩ := exists_of_bind_eq_ok h
  obtain rfl := eq_of_variant read
  clear h read
  obtain ⟨inner, found, fine⟩ := Schema.check_variant_eq_none_iff.mp accepted
  dsimp only at rest
  have bare (found : inner = none) : payload = none := by
    subst found
    cases payload with
    | none => rfl
    | some _ => exact fine.elim
  split at rest
  case h_1 =>
    rw [bare (Option.some.inj found).symm]
    exact .inl rfl
  case h_6 =>
    rw [bare (Option.some.inj found).symm]
    exact .inr rfl
  case h_13 => exact nomatch rest
  -- No other tag is read as an answer that the chunk is stored.
  all_goals
    simp only [bind_eq_ok_iff, pure, Except.pure, Except.ok.injEq] at rest
    grind [ChunkReply.isStored]

end CertifiedCalls
