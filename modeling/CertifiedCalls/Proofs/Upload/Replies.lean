import CertifiedCalls.Proofs.Upload.Wire

/-! # Replies of the storage
What the schemas of the replies accept, their readers read. A field that a schema describes is there
and is of its type, so that reading it succeeds and changes nothing of it (`exists_word64` and the
others). Hence a decoded reply of a bucket is always mapped to a reply that it **carries**, field by
field, and so is one of the index, but for a place in a bucket with an identifier that is too long
(`ofValue_of_decode`). -/

namespace CertifiedCalls

open MessagePack (Item)

namespace Schema

/-- Only tags are accepted as one of several cases. -/
theorem exists_tag_of_accepted {cases : List (String × Option Schema)} {v : Value}
    (accepted : (Schema.variant cases).check v = none) :
    ∃ tag payload, v = .variant tag payload := by
  cases v with
  | variant tag payload => exact ⟨tag, payload, rfl⟩
  | _ => simp [check] at accepted

/-- A payload that a case describes is there and accepted. -/
theorem PayloadAccepted.exists_payload {schema : Schema} {payload : Option Value}
    (fine : PayloadAccepted (some schema) payload) :
    ∃ p, payload = some p ∧ schema.check p = none := by
  cases payload with
  | none => exact fine.elim
  | some p => exact ⟨p, rfl, fine⟩

/-- A payload that no case describes is not there. -/
theorem PayloadAccepted.eq_none {payload : Option Value} (fine : PayloadAccepted none payload) :
    payload = none := by
  cases payload with
  | none => rfl
  | some p => exact fine.elim

/-- What is needed of a record is there and accepted. -/
theorem exists_field_of_accepted {fields : List (String × Schema)} {p : Value}
    (accepted : (Schema.record fields).check p = none) {name : String} {schema : Schema}
    (mem : (name, schema) ∈ fields) (needed : schema.isOptional = false) :
    ∃ v, p.get? name = some v ∧ schema.check v = none := by
  cases p with
  | record present =>
    have field := check_record_eq_none_iff.mp accepted name schema mem
    cases found : Fields.get? name present with
    | some v =>
      rw [found] at field
      exact ⟨v, found, field⟩
    | none =>
      rw [found, FieldAccepted, needed] at field
      cases field
  | _ => simp [check] at accepted

/-- A natural number that is accepted is one, within its width. -/
theorem exists_nat_of_accepted {width : NatWidth} {v : Value}
    (accepted : (Schema.nat width).check v = none) : ∃ n, v = .nat n ∧ n ≤ width.max := by
  cases v with
  | nat n =>
    rw [check] at accepted
    by_cases le : n ≤ width.max
    · exact ⟨n, rfl, le⟩
    · simp [le] at accepted
  | _ => simp [check] at accepted

/-- A byte string that is accepted is one, of the length that the schema tells. -/
theorem exists_bytes_of_accepted {length : Option Nat} {v : Value}
    (accepted : (Schema.bytes length).check v = none) :
    ∃ octets, v = .bytes octets ∧ ∀ n, length = some n → octets.length = n := by
  cases v with
  | bytes octets =>
    cases length with
    | none => exact ⟨octets, rfl, nofun⟩
    | some n =>
      rw [check] at accepted
      by_cases e : octets.length = n
      · refine ⟨octets, rfl, fun m same => ?_⟩
        rw [e, Option.some.inj same]
      · simp [e] at accepted
  | _ => cases length <;> simp [check] at accepted

end Schema

/-! ### Reading what is accepted -/

namespace ReplyReader

/-- A number below the bound of 64 bits is one of 64 bits. -/
theorem word64?_nat {n : Nat} (small : n < 18446744073709551616) :
    word64? (.nat n) = some (.ofNat n) := by
  rw [word64?, Value.nat?, Option.filter_some, if_pos (decide_eq_true small)]
  rfl

/-- A number below the bound of 32 bits is one of 32 bits. -/
theorem word32?_nat {n : Nat} (small : n < 4294967296) : word32? (.nat n) = some (.ofNat n) := by
  rw [word32?, Value.nat?, Option.filter_some, if_pos (decide_eq_true small)]
  rfl

section Fields

variable {fields : List (String × Schema)} {p : Value} {name : String}
  (accepted : (Schema.record fields).check p = none)

include accepted

/-- A field that is needed can be read. -/
theorem exists_field {schema : Schema} (mem : (name, schema) ∈ fields)
    (needed : schema.isOptional = false) : ∃ v, field p name = .ok v ∧ schema.check v = none := by
  obtain ⟨v, found, fine⟩ := Schema.exists_field_of_accepted accepted mem needed
  refine ⟨v, ?_, fine⟩
  rw [field, found]
  rfl

/-- A number of 64 bits can be read. -/
theorem exists_word64 (mem : (name, .nat .bits64) ∈ fields) : ∃ n, word64 p name = .ok n := by
  obtain ⟨v, read, fine⟩ := exists_field accepted mem rfl
  obtain ⟨n, rfl, le⟩ := Schema.exists_nat_of_accepted fine
  have small : n < 18446744073709551616 := Nat.lt_succ_of_le le
  refine ⟨.ofNat n, ?_⟩
  rw [word64, read]
  show demand _ _ _ (word64? (.nat n)) = _
  rw [word64?_nat small]
  rfl

/-- A number of 32 bits can be read. -/
theorem exists_word32 (mem : (name, .nat .bits32) ∈ fields) : ∃ n, word32 p name = .ok n := by
  obtain ⟨v, read, fine⟩ := exists_field accepted mem rfl
  obtain ⟨n, rfl, le⟩ := Schema.exists_nat_of_accepted fine
  have small : n < 4294967296 := Nat.lt_succ_of_le le
  refine ⟨.ofNat n, ?_⟩
  rw [word32, read]
  show demand _ _ _ (word32? (.nat n)) = _
  rw [word32?_nat small]
  rfl

/-- A byte string can be read. -/
theorem exists_bytes {length : Option Nat} (mem : (name, .bytes length) ∈ fields) :
    ∃ octets, bytes p name = .ok octets ∧ ∀ n, length = some n → octets.length = n := by
  obtain ⟨v, read, fine⟩ := exists_field accepted mem rfl
  obtain ⟨octets, rfl, long⟩ := Schema.exists_bytes_of_accepted fine
  refine ⟨octets, ?_, long⟩
  rw [bytes, read]
  rfl

/-- A hash can be read. -/
theorem exists_hash (mem : (name, .bytes (some 32)) ∈ fields) : ∃ h, hash p name = .ok h := by
  obtain ⟨octets, read, long⟩ := exists_bytes accepted mem
  refine ⟨⟨octets, long 32 rfl⟩, ?_⟩
  rw [hash, read]
  simp [bind, Except.bind, FileHash.ofBytes?, long 32 rfl, demand]

end Fields

/-- The octets of the hash that is read in a field are there. -/
theorem get?_of_hash {record : Value} {name : String} {h : FileHash} (read : hash record name = .ok h) :
    record.get? name = some (.bytes h.bytes) := by
  obtain ⟨octets, found, made⟩ := exists_of_bind_eq_ok read
  rw [get?_of_bytes found]
  have same := eq_some_of_demand made
  unfold FileHash.ofBytes? at same
  split at same
  · obtain rfl := Option.some.inj same
    rfl
  · cases same

end ReplyReader

open ReplyReader

/-! ### What replies carry -/

/-- A record **holds** an allowance when each of its fields has the number of the same name. -/
structure Allowance.HeldBy (a : Allowance) (p : Value) : Prop where
  /-- What the user may store. -/
  byteLimit : p.get? "byte_limit" = some (.nat a.byteLimit.toNat)
  /-- What is stored now. -/
  bytesUsed : p.get? "bytes_used" = some (.nat a.bytesUsed.toNat)
  /-- What is stored after the upload. -/
  bytesUsedAfterUpload :
    p.get? "bytes_used_after_upload" = some (.nat a.bytesUsedAfterUpload.toNat)
  /-- What is stored after the whole operation. -/
  bytesUsedAfterOperation :
    p.get? "bytes_used_after_operation" = some (.nat a.bytesUsedAfterOperation.toNat)

/-- A record **holds** a place when each of its fields has what the place says under its name. -/
structure Allocation.HeldBy (a : Allocation) (p : Value) : Prop where
  /-- The bucket. -/
  bucket : p.get? "canister_id" = some (.bytes a.bucket.bytes)
  /-- The identifier of the file. -/
  fileId : p.get? "file_id" = some (.nat a.fileId.toNat)
  /-- The size of chunks. -/
  chunkSize : p.get? "chunk_size" = some (.nat a.chunkSize.toNat)
  /-- The allowance after the upload. -/
  allowance : ∃ q, p.get? "projected_allowance" = some q ∧ a.allowance.HeldBy q

/-- A value **carries** an answer of the index: its tag, and in the payload its fields. -/
inductive AllocationReply.CarriedBy : AllocationReply → Value → Prop
  /-- A place. -/
  | success {a : Allocation} {p : Value} (held : a.HeldBy p) :
    CarriedBy (.success a) (.variant "Success" (some p))
  /-- An exceeded allowance. -/
  | allowanceExceeded {a : Allowance} {p : Value} (held : a.HeldBy p) :
    CarriedBy (.allowanceExceeded a) (.variant "AllowanceExceeded" (some p))
  /-- An unknown user. -/
  | userNotFound : CarriedBy .userNotFound (.variant "UserNotFound" none)
  /-- No bucket. -/
  | bucketUnavailable : CarriedBy .bucketUnavailable (.variant "BucketUnavailable" none)

/-- A value **carries** an answer of a bucket: its tag, and in the payload its fields. -/
inductive ChunkReply.CarriedBy : ChunkReply → Value → Prop
  /-- An answer that has only its tag. -/
  | bare {r : ChunkReply} (mem : r ∈ ChunkReply.bare) : CarriedBy r (.variant r.tag none)
  /-- An exceeded allowance. -/
  | allowanceExceeded {a : Allowance} {p : Value} (held : a.HeldBy p) :
    CarriedBy (.allowanceExceeded a) (.variant "AllowanceExceeded" (some p))
  /-- A file that is too big. -/
  | fileTooBig (limit : UInt64) :
    CarriedBy (.fileTooBig limit) (.variant "FileTooBig" (some (.nat limit.toNat)))
  /-- A chunk of another size. -/
  | chunkSizeMismatch {expected actual : UInt32} {p : Value}
    (wanted : p.get? "expected_chunk_size" = some (.nat expected.toNat))
    (sent : p.get? "actual_chunk_size" = some (.nat actual.toNat)) :
    CarriedBy (.chunkSizeMismatch expected actual) (.variant "ChunkSizeMismatch" (some p))
  /-- Another hash. -/
  | hashMismatch {provided actual : FileHash} {chunkCount remaining : UInt32} {p : Value}
    (given : p.get? "provided_hash" = some (.bytes provided.bytes))
    (known : p.get? "actual_hash" = some (.bytes actual.bytes))
    (count : p.get? "chunk_count" = some (.nat chunkCount.toNat))
    (rest : p.get? "remaining_chunks" = some (.nat remaining.toNat)) :
    CarriedBy (.hashMismatch provided actual chunkCount remaining)
      (.variant "HashMismatch" (some p))

/-- An answer of the index has the tag of the value that carries it. -/
theorem AllocationReply.CarriedBy.tag {r : AllocationReply} {v : Value} (h : r.CarriedBy v) :
    ∃ payload, v = .variant r.tag payload := by
  cases h <;> exact ⟨_, rfl⟩

/-- An answer of a bucket has the tag of the value that carries it. -/
theorem ChunkReply.CarriedBy.tag {r : ChunkReply} {v : Value} (h : r.CarriedBy v) :
    ∃ payload, v = .variant r.tag payload := by
  cases h <;> exact ⟨_, rfl⟩

/-! ### Mapping replies -/

/-- An accepted allowance is read as it is held. -/
theorem exists_allowance {p : Value} (accepted : Allowance.schema.check p = none) :
    ∃ a, allowance p = .ok a ∧ a.HeldBy p := by
  obtain ⟨limit, limit_read⟩ : ∃ n, word64 p "byte_limit" = .ok n :=
    exists_word64 accepted (by simp)
  obtain ⟨used, used_read⟩ : ∃ n, word64 p "bytes_used" = .ok n :=
    exists_word64 accepted (by simp)
  obtain ⟨upload, upload_read⟩ : ∃ n, word64 p "bytes_used_after_upload" = .ok n :=
    exists_word64 accepted (by simp)
  obtain ⟨operation, operation_read⟩ : ∃ n, word64 p "bytes_used_after_operation" = .ok n :=
    exists_word64 accepted (by simp)
  refine ⟨⟨limit, used, upload, operation⟩, ?_, get?_of_word64 limit_read, get?_of_word64 used_read,
    get?_of_word64 upload_read, get?_of_word64 operation_read⟩
  rw [allowance, limit_read, used_read, upload_read, operation_read]
  rfl

/-- The schema of a place. -/
def Allocation.schema : Schema := .record [("canister_id", .bytes none), ("file_id", .nat .bits64),
  ("chunk_size", .nat .bits32), ("projected_allowance", Allowance.schema)]

/-- The failure of a reply that names a bucket by so many octets, which are too many. -/
def longBucket (length : Nat) : CallFailure :=
  .responseMismatch "$::Success.canister_id" "principal" (CanisterIdError.tooLong length).message

/-- A bucket is read from at most 29 octets, and more are a failure. -/
theorem bucket_of_bytes {p : Value} {octets : Bytes} (read : bytes p "canister_id" = .ok octets) :
    bucket p = if h : octets.length ≤ 29 then .ok ⟨octets, h⟩
      else .error (longBucket octets.length) := by
  by_cases short : octets.length ≤ 29
  · have made : CanisterId.ofBytes octets = .ok ⟨octets, short⟩ := dif_pos short
    rw [dif_pos short]
    simp only [bucket, read, bind, Except.bind, made]
    rfl
  · have made : CanisterId.ofBytes octets = .error (.tooLong octets.length) := dif_neg short
    rw [dif_neg short]
    simp only [bucket, read, bind, Except.bind, made]
    rfl

/-- An accepted place is read as it is held, or it names its bucket by more than 29 octets. -/
theorem exists_allocation {p : Value} (accepted : Allocation.schema.check p = none) :
    ∃ octets, p.get? "canister_id" = some (.bytes octets) ∧
      (octets.length ≤ 29 → ∃ a, allocation p = .ok a ∧ a.HeldBy p) ∧
      (29 < octets.length → allocation p = .error (longBucket octets.length)) := by
  obtain ⟨octets, octets_read, _⟩ : ∃ octets, bytes p "canister_id" = .ok octets ∧ _ :=
    exists_bytes accepted List.mem_cons_self
  refine ⟨octets, get?_of_bytes octets_read, fun short => ?_, fun long => ?_⟩
  · have bucket_read : bucket p = .ok ⟨octets, short⟩ := by
      rw [bucket_of_bytes octets_read, dif_pos short]
    obtain ⟨fileId, fileId_read⟩ : ∃ n, word64 p "file_id" = .ok n :=
      exists_word64 accepted (by simp)
    obtain ⟨chunkSize, chunkSize_read⟩ : ∃ n, word32 p "chunk_size" = .ok n :=
      exists_word32 accepted (by simp)
    obtain ⟨q, q_read, fine⟩ : ∃ q, field p "projected_allowance" = .ok q ∧
        Allowance.schema.check q = none := exists_field accepted (by simp) rfl
    obtain ⟨a, a_read, held⟩ := exists_allowance fine
    refine ⟨⟨⟨octets, short⟩, fileId, chunkSize, a⟩, ?_, get?_of_bucket bucket_read,
      get?_of_word64 fileId_read, get?_of_word32 chunkSize_read, q, eq_some_of_demand q_read, held⟩
    simp only [allocation, bucket_read, fileId_read, chunkSize_read, q_read, a_read, bind,
      Except.bind, pure, Except.pure]
  · have bucket_read : bucket p = .error (longBucket octets.length) := by
      rw [bucket_of_bytes octets_read, dif_neg (by omega)]
    rw [allocation, bucket_read]
    rfl

/-- A value is a place in a bucket that is named by more than 29 octets. -/
def NamesLongBucket (v : Value) : Prop :=
  ∃ p octets, v = .variant "Success" (some p) ∧ p.get? "canister_id" = some (.bytes octets) ∧
    29 < octets.length

/-- Only places name buckets. -/
theorem not_namesLongBucket {tag : String} {payload : Option Value} (other : tag ≠ "Success") :
    ¬ NamesLongBucket (.variant tag payload) := by
  rintro ⟨p, octets, same, _⟩
  exact other (Value.variant.inj same).1

/-- **An accepted answer of the index is mapped** to what it carries, unless it names its bucket by
more than 29 octets, which is a failure at that field. -/
theorem AllocationReply.ofValue_of_accepted {v : Value}
    (accepted : AllocationReply.schema.check v = none) :
    (¬ NamesLongBucket v → ∃ r, AllocationReply.ofValue v = .ok r ∧ r.CarriedBy v) ∧
    (NamesLongBucket v → ∃ found, AllocationReply.ofValue v
      = .error (.responseMismatch "$::Success.canister_id" "principal" found)) := by
  obtain ⟨tag, payload, rfl⟩ := Schema.exists_tag_of_accepted accepted
  obtain ⟨inner, found, fine⟩ := Schema.check_variant_eq_none_iff.mp accepted
  have mem := Schema.mem_of_findCase found
  clear accepted found
  -- One case for each tag of the schema, in its order.
  rcases mem with _ | ⟨_, _ | ⟨_, _ | ⟨_, _ | ⟨_, ⟨⟩⟩⟩⟩⟩
  · obtain ⟨p, rfl, fine⟩ := fine.exists_payload
    obtain ⟨octets, there, short, long⟩ := exists_allocation fine
    have mapped : AllocationReply.ofValue (.variant "Success" (some p))
        = allocation p >>= fun a => pure (.success a) := rfl
    rw [mapped]
    constructor
    · intro fits
      have le : octets.length ≤ 29 := Nat.le_of_not_lt fun more => fits ⟨p, octets, rfl, there, more⟩
      obtain ⟨a, read, held⟩ := short le
      rw [read]
      exact ⟨.success a, rfl, .success held⟩
    · rintro ⟨q, others, same, there', more⟩
      obtain rfl := Option.some.inj (Value.variant.inj same).2
      obtain rfl := Value.bytes.inj (Option.some.inj (there.symm.trans there'))
      rw [long more]
      exact ⟨_, rfl⟩
  · refine ⟨fun _ => ?_, fun long => absurd long (not_namesLongBucket (by decide))⟩
    obtain ⟨p, rfl, fine⟩ := fine.exists_payload
    obtain ⟨a, read, held⟩ := exists_allowance fine
    have mapped : AllocationReply.ofValue (.variant "AllowanceExceeded" (some p))
        = allowance p >>= fun a => pure (.allowanceExceeded a) := rfl
    rw [mapped, read]
    exact ⟨.allowanceExceeded a, rfl, .allowanceExceeded held⟩
  · refine ⟨fun _ => ?_, fun long => absurd long (not_namesLongBucket (by decide))⟩
    obtain rfl := fine.eq_none
    exact ⟨.userNotFound, rfl, .userNotFound⟩
  · refine ⟨fun _ => ?_, fun long => absurd long (not_namesLongBucket (by decide))⟩
    obtain rfl := fine.eq_none
    exact ⟨.bucketUnavailable, rfl, .bucketUnavailable⟩

/-- A tag that stands alone is mapped to the answer with that tag. -/
theorem ChunkReply.ofValue_bare {r : ChunkReply} (mem : r ∈ ChunkReply.bare) :
    ChunkReply.ofValue (.variant r.tag none) = .ok r := by
  simp only [ChunkReply.bare, List.mem_cons, List.not_mem_nil, or_false] at mem
  rcases mem with rfl | rfl | rfl | rfl | rfl | rfl | rfl | rfl <;> rfl

/-- **An accepted answer of a bucket is mapped** to what it carries. -/
theorem ChunkReply.ofValue_of_accepted {v : Value} (accepted : ChunkReply.schema.check v = none) :
    ∃ r, ChunkReply.ofValue v = .ok r ∧ r.CarriedBy v := by
  obtain ⟨tag, payload, rfl⟩ := Schema.exists_tag_of_accepted accepted
  obtain ⟨inner, found, fine⟩ := Schema.check_variant_eq_none_iff.mp accepted
  have mem := Schema.mem_of_findCase found
  clear accepted found
  -- The tags that stand alone are all mapped in one way.
  have bare (r : ChunkReply) (mem : r ∈ ChunkReply.bare) (fine : Schema.PayloadAccepted none payload) :
      ∃ s, ChunkReply.ofValue (.variant r.tag payload) = .ok s ∧
        s.CarriedBy (.variant r.tag payload) := by
    obtain rfl := fine.eq_none
    exact ⟨r, ofValue_bare mem, .bare mem⟩
  simp only [List.mem_cons, Prod.mk.injEq, List.not_mem_nil, or_false] at mem
  rcases mem with ⟨rfl, rfl⟩ | ⟨rfl, rfl⟩ | ⟨rfl, rfl⟩ | ⟨rfl, rfl⟩ | ⟨rfl, rfl⟩ | ⟨rfl, rfl⟩ |
    ⟨rfl, rfl⟩ | ⟨rfl, rfl⟩ | ⟨rfl, rfl⟩ | ⟨rfl, rfl⟩ | ⟨rfl, rfl⟩ | ⟨rfl, rfl⟩
  · exact bare .success (by decide) fine
  · obtain ⟨p, rfl, fine⟩ := fine.exists_payload
    obtain ⟨a, read, held⟩ := exists_allowance fine
    have mapped : ChunkReply.ofValue (.variant "AllowanceExceeded" (some p))
        = allowance p >>= fun a => pure (.allowanceExceeded a) := rfl
    rw [mapped, read]
    exact ⟨.allowanceExceeded a, rfl, .allowanceExceeded held⟩
  · exact bare .fileAlreadyExists (by decide) fine
  · obtain ⟨p, rfl, fine⟩ := fine.exists_payload
    obtain ⟨n, rfl, le⟩ := Schema.exists_nat_of_accepted fine
    have small : n < 18446744073709551616 := Nat.lt_succ_of_le le
    have mapped : ChunkReply.ofValue (.variant "FileTooBig" (some (.nat n)))
        = demand "$::FileTooBig" "nat64" "other" (word64? (.nat n))
          >>= fun limit => pure (.fileTooBig limit) := rfl
    have same : (UInt64.ofNat n).toNat = n := UInt64.toNat_ofNat_of_lt' small
    have carried := ChunkReply.CarriedBy.fileTooBig (.ofNat n)
    rw [same] at carried
    rw [mapped, word64?_nat small]
    exact ⟨.fileTooBig (.ofNat n), rfl, carried⟩
  · exact bare .fileExpired (by decide) fine
  · exact bare .chunkAlreadyExists (by decide) fine
  · exact bare .chunkIndexTooHigh (by decide) fine
  · obtain ⟨p, rfl, fine⟩ := fine.exists_payload
    obtain ⟨expected, expected_read⟩ : ∃ n, word32 p "expected_chunk_size" = .ok n :=
      exists_word32 fine (by simp)
    obtain ⟨actual, actual_read⟩ : ∃ n, word32 p "actual_chunk_size" = .ok n :=
      exists_word32 fine (by simp)
    have mapped : ChunkReply.ofValue (.variant "ChunkSizeMismatch" (some p))
        = word32 p "expected_chunk_size" >>= fun expected =>
          word32 p "actual_chunk_size" >>= fun actual =>
            pure (.chunkSizeMismatch expected actual) := rfl
    rw [mapped, expected_read, actual_read]
    exact ⟨.chunkSizeMismatch expected actual, rfl,
      .chunkSizeMismatch (get?_of_word32 expected_read) (get?_of_word32 actual_read)⟩
  · exact bare .full (by decide) fine
  · obtain ⟨p, rfl, fine⟩ := fine.exists_payload
    obtain ⟨provided, provided_read⟩ : ∃ h, hash p "provided_hash" = .ok h :=
      exists_hash fine (by simp)
    obtain ⟨actual, actual_read⟩ : ∃ h, hash p "actual_hash" = .ok h := exists_hash fine (by simp)
    obtain ⟨count, count_read⟩ : ∃ n, word32 p "chunk_count" = .ok n :=
      exists_word32 fine (by simp)
    obtain ⟨remaining, remaining_read⟩ : ∃ n, word32 p "remaining_chunks" = .ok n :=
      exists_word32 fine (by simp)
    have mapped : ChunkReply.ofValue (.variant "HashMismatch" (some p))
        = hash p "provided_hash" >>= fun provided => hash p "actual_hash" >>= fun actual =>
          word32 p "chunk_count" >>= fun count => word32 p "remaining_chunks" >>= fun remaining =>
            pure (.hashMismatch provided actual count remaining) := rfl
    rw [mapped, provided_read, actual_read, count_read, remaining_read]
    exact ⟨.hashMismatch provided actual count remaining, rfl,
      .hashMismatch (get?_of_hash provided_read) (get?_of_hash actual_read)
        (get?_of_word32 count_read) (get?_of_word32 remaining_read)⟩
  · exact bare .invalidFileId (by decide) fine
  · exact bare .userNotFound (by decide) fine

/-- **Schemas and readers agree.** Octets that are decoded by the schema of a bucket's answers are
mapped to an answer that they carry, field by field. So are those of the index's answers, but for
a place in a bucket that is named by more than 29 octets, which is a failure at that field. -/
theorem mapped_of_decode {octets : Bytes} {v : Value} :
    (ChunkReply.schema.decode octets = .ok v →
      ∃ r, ChunkReply.ofValue v = .ok r ∧ r.CarriedBy v ∧ ∃ p, v = .variant r.tag p) ∧
    (AllocationReply.schema.decode octets = .ok v →
      (¬ NamesLongBucket v →
        ∃ r, AllocationReply.ofValue v = .ok r ∧ r.CarriedBy v ∧ ∃ p, v = .variant r.tag p) ∧
      (NamesLongBucket v → ∃ found, AllocationReply.ofValue v
        = .error (.responseMismatch "$::Success.canister_id" "principal" found))) := by
  constructor
  · intro decoded
    obtain ⟨r, mapped, carried⟩ :=
      ChunkReply.ofValue_of_accepted (Schema.check_eq_none_of_decode decoded)
    exact ⟨r, mapped, carried, carried.tag⟩
  · intro decoded
    obtain ⟨fits, long⟩ :=
      AllocationReply.ofValue_of_accepted (Schema.check_eq_none_of_decode decoded)
    refine ⟨fun short => ?_, long⟩
    obtain ⟨r, mapped, carried⟩ := fits short
    exact ⟨r, mapped, carried, carried.tag⟩

/-- A size mismatch by position, with one of its numbers as text, and a place in a bucket that is
named by thirty octets. -/
theorem mapped_of_decode_text_number :
    let mismatch : Item := .map [(.text "ChunkSizeMismatch", .array [.text "51", .int 7])]
    let place : Item := .map [(.text "Success", .array [.binary (List.replicate 30 1), .int 2, .int 3,
      .array [.int 4, .int 5, .int 6, .int 7]])]
    let v : Value := .variant "ChunkSizeMismatch" (some (.record
      [("actual_chunk_size", .nat 7), ("expected_chunk_size", .nat 51)]))
    let v' : Value := .variant "Success" (some (.record
      [("canister_id", .bytes (List.replicate 30 1)), ("chunk_size", .nat 3), ("file_id", .nat 2),
        ("projected_allowance", .record [("byte_limit", .nat 4), ("bytes_used", .nat 5),
          ("bytes_used_after_operation", .nat 7), ("bytes_used_after_upload", .nat 6)])]))
    (ChunkReply.schema.decode mismatch.write = .ok v ∧
      ∃ r, ChunkReply.ofValue v = .ok r ∧ r.CarriedBy v) ∧
    AllocationReply.schema.decode place.write = .ok v' ∧ NamesLongBucket v' ∧
      ∃ found, AllocationReply.ofValue v'
        = .error (.responseMismatch "$::Success.canister_id" "principal" found) := by
  intro mismatch place v v'
  have read {item : Item} (fits : item.Fits) (shallow : item.depth ≤ 510) :
      Item.read item.write = .ok (item, []) := by
    have read := Item.read_write fits shallow []
    rwa [List.append_nil] at read
  have mismatch_fits : mismatch.Fits := by
    simp [mismatch, Item.Fits, Item.AllFit, Item.EntriesFit, Bytes.ofText]
    decide
  have place_fits : place.Fits := by
    simp [place, Item.Fits, Item.AllFit, Item.EntriesFit, Bytes.ofText]
    decide
  have decoded : ChunkReply.schema.decode mismatch.write = .ok v :=
    Schema.decode_eq_ok_iff.mpr ⟨mismatch, read mismatch_fits (by decide), rfl, rfl⟩
  have decoded' : AllocationReply.schema.decode place.write = .ok v' :=
    Schema.decode_eq_ok_iff.mpr ⟨place, read place_fits (by decide), rfl, rfl⟩
  have long : NamesLongBucket v' := ⟨_, List.replicate 30 1, rfl, rfl, by decide⟩
  obtain ⟨r, mapped, carried, _⟩ := mapped_of_decode.1 decoded
  exact ⟨⟨decoded, r, mapped, carried⟩, decoded', long, (mapped_of_decode.2 decoded').2 long⟩

end CertifiedCalls
