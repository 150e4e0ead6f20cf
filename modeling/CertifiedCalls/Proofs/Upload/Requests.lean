import CertifiedCalls.Proofs.Upload.Wire

/-! # Requests to the storage
What the storage is **sent** is encoded in either layout and decoded to the same value, and the
octets tell each part of it, those that may be missing included
(`StorageArgs.told_of_decode`). So the octets determine what was sent
(`StorageArgs.Told.unique`), and which of the two messages it is: the first field of one is a byte
string and that of the other a sequence (`StorageArgs.ne_of_decode`). -/

namespace CertifiedCalls

/-- What octets tell in a field, read by a schema. -/
def fieldTold (schema : Schema) (arg : Bytes) (name : String) : Option Value :=
  (schema.decode arg).toOption.bind (Value.get? name)

/-- Octets that are decoded tell what the value holds. -/
theorem fieldTold_of_decode {schema : Schema} {arg : Bytes} {v : Value}
    (decoded : schema.decode arg = .ok v) (name : String) :
    fieldTold schema arg name = v.get? name := by
  rw [fieldTold, decoded]
  rfl

namespace Schema

variable {name : String} {schema : Schema} {rest : List (String × Schema)} {present : Fields Value}
  {v : Value}

/-- The item of a record by position starts with that of its first field, unless this may be
missing. -/
theorem toItem_positional_cons (found : Fields.get? name present = some v)
    (needed : schema.isOptional = false) :
    (Schema.record ((name, schema) :: rest)).toItem .positional (.record present)
      = .array (schema.toItem .positional v :: positionalItems .positional rest present) := by
  rw [toItem, positionalItems, found, needed, Bool.and_false, Bool.and_false]
  rfl

/-- The item of a record by name starts with the entry of its first field, unless this may be
missing. -/
theorem toItem_named_cons (found : Fields.get? name present = some v)
    (needed : schema.isOptional = false) :
    (Schema.record ((name, schema) :: rest)).toItem .named (.record present)
      = .map ((.text name, schema.toItem .named v) :: namedEntries .named rest present) := by
  simp [toItem, namedEntries, found, needed]

end Schema

/-! ### Places -/

namespace AllocationArgs

/-- Octets **tell** what the index is asked with when they tell each part of it. -/
structure Told (a : AllocationArgs) (arg : Bytes) : Prop where
  /-- They tell the hash of the file. -/
  fileHash : fieldTold AllocationArgs.schema arg "file_hash" = some (.bytes a.fileHash.bytes)
  /-- They tell the size of the file. -/
  fileSize : fieldTold AllocationArgs.schema arg "file_size" = some (.nat a.fileSize.toNat)
  /-- They tell the seed, if there is one. -/
  fileIdSeed : fieldTold AllocationArgs.schema arg "file_id_seed"
    = a.fileIdSeed.map fun seed => .nat seed.val

/-- What the index is asked with is sendable. -/
theorem sendable_toValue (a : AllocationArgs) : AllocationArgs.schema.Sendable a.toValue 2 := by
  have hash : (Schema.bytes (some 32)).Sendable (.bytes a.fileHash.bytes) 1 :=
    .bytes (if_pos a.fileHash.length_eq) (by rw [a.fileHash.length_eq]; decide)
  have size : (Schema.nat .bits64).Sendable (.nat a.fileSize.toNat) 1 :=
    .number (Nat.le_of_lt_succ a.fileSize.toNat_lt)
  have seed : (Schema.optional (.nat .bits128)).Sendable
      (.optional (a.fileIdSeed.map fun seed => .nat seed.val)) 1 := by
    cases a.fileIdSeed with
    | none => exact .ofAbsent trivial
    | some seed => exact .ofPresent (.number (Nat.le_of_lt_succ seed.isLt))
  refine .record ?_ (by decide) (by decide) (by decide)
  exact .cons hash nofun <| .cons size nofun <| .cons seed (fun _ => rfl) .nil

/-- Octets that are decoded to the value of what the index is asked with tell each part of it. -/
theorem told_of_decode {a : AllocationArgs} {arg : Bytes}
    (decoded : AllocationArgs.schema.decode arg = .ok a.toValue) : a.Told arg := by
  have gathered (name : String) := (fieldTold_of_decode decoded name).trans
    (Value.get?_recordOf (by simp [Fields.names]) name)
  exact {
    fileHash := gathered "file_hash"
    fileSize := gathered "file_size"
    fileIdSeed := by
      refine (gathered "file_id_seed").trans ?_
      cases a.fileIdSeed <;> rfl }

/-- Octets tell at most one thing that the index is asked with. -/
theorem Told.unique {a b : AllocationArgs} {arg : Bytes} (left : a.Told arg) (right : b.Told arg) :
    a = b := by
  have hash := left.fileHash.symm.trans right.fileHash
  have size := left.fileSize.symm.trans right.fileSize
  have seed := left.fileIdSeed.symm.trans right.fileIdSeed
  have fileHash : a.fileHash = b.fileHash := by
    apply FileHash.ext
    simpa using hash
  have fileSize : a.fileSize = b.fileSize := by
    apply UInt64.toNat.inj
    simpa using size
  have fileIdSeed : a.fileIdSeed = b.fileIdSeed := by
    refine Option.map_injective (fun s t same => ?_) seed
    exact Fin.ext (Value.nat.inj same)
  cases a
  cases b
  simp_all

end AllocationArgs

/-! ### Chunks -/

/-- Octets tell at most one thing that is sent with a chunk. -/
theorem ChunkArgs.Told.unique {a b : ChunkArgs} {arg : Bytes} (left : a.Told arg)
    (right : b.Told arg) : a = b := by
  have accessors : a.accessors = b.accessors := by
    have same := Value.array.inj (Option.some.inj (left.accessors.symm.trans right.accessors))
    refine (List.map_inj_right fun i j same => ?_).mp same
    cases i
    cases j
    simpa using same
  have index : a.index = b.index := by
    apply UInt32.toNat.inj
    simpa using left.index.symm.trans right.index
  have fileId : a.fileId = b.fileId := by
    apply UInt64.toNat.inj
    simpa using left.fileId.symm.trans right.fileId
  have hash : a.hash = b.hash := by
    apply FileHash.ext
    simpa using left.hash.symm.trans right.hash
  have mimeType : a.mimeType = b.mimeType := by
    simpa using left.mimeType.symm.trans right.mimeType
  have totalSize : a.totalSize = b.totalSize := by
    apply UInt64.toNat.inj
    simpa using left.totalSize.symm.trans right.totalSize
  have bytes : a.bytes = b.bytes := by
    simpa using left.bytes.symm.trans right.bytes
  have chunkSize : a.chunkSize = b.chunkSize := by
    apply UInt32.toNat.inj
    simpa using left.chunkSize.symm.trans right.chunkSize
  have expiry : a.expiry = b.expiry := by
    refine Option.map_injective (fun s t same => ?_) (left.expiry.symm.trans right.expiry)
    exact UInt64.toNat.inj (Value.nat.inj same)
  cases a
  cases b
  simp_all

/-! ### Either -/

/-- What the **storage** is sent: what the index is asked with, or what goes with a chunk. -/
inductive StorageArgs where
  /-- To the index. -/
  | allocation (args : AllocationArgs)
  /-- To a bucket. -/
  | chunk (args : ChunkArgs)
deriving DecidableEq

namespace StorageArgs

/-- The schema by which it is sent. -/
def schema : StorageArgs → Schema
  | .allocation _ => AllocationArgs.schema
  | .chunk _ => ChunkArgs.schema

/-- The value that carries it. -/
def toValue : StorageArgs → Value
  | .allocation args => args.toValue
  | .chunk args => args.toValue

/-- Its lengths have 32 bits. -/
def Small : StorageArgs → Prop
  | .allocation _ => True
  | .chunk args => args.Small

/-- Octets tell each part of it. -/
def Told (arg : Bytes) : StorageArgs → Prop
  | .allocation args => args.Told arg
  | .chunk args => args.Told arg

/-- What the storage is sent is sendable when it is small. -/
theorem sendable_toValue {a : StorageArgs} (small : a.Small) : a.schema.Sendable a.toValue 2 := by
  cases a with
  | allocation args => exact args.sendable_toValue
  | chunk args => exact ChunkArgs.sendable_toValue small

/-- Octets that are decoded to its value tell each part of it. -/
theorem told_of_decode {a : StorageArgs} {arg : Bytes} (decoded : a.schema.decode arg = .ok a.toValue) :
    a.Told arg := by
  cases a with
  | allocation args => exact AllocationArgs.told_of_decode decoded
  | chunk args => exact ChunkArgs.told_of_decode decoded

/-- The items of the two messages differ in any layouts, for their first fields do. -/
theorem toItem_ne (args : AllocationArgs) (chunk : ChunkArgs) (layout other : Layout) :
    AllocationArgs.schema.toItem layout args.toValue
      ≠ ChunkArgs.schema.toItem other chunk.toValue := by
  have hash : args.toValue.get? "file_hash" = some (.bytes args.fileHash.bytes) :=
    Value.get?_recordOf (by simp [Fields.names]) _
  have accessors : chunk.toValue.get? "accessors"
      = some (.array (chunk.accessors.map fun id => .bytes id.bytes)) :=
    Value.get?_recordOf (by simp [Fields.names]) _
  intro same
  unfold AllocationArgs.schema AllocationArgs.toValue ChunkArgs.schema ChunkArgs.toValue at same
  unfold Value.recordOf at same
  cases layout with
  | positional =>
    rw [Schema.toItem_positional_cons hash rfl] at same
    cases other with
    | positional =>
      -- A byte string is no sequence.
      rw [Schema.toItem_positional_cons accessors rfl] at same
      have first := (List.cons.inj (MessagePack.Item.array.inj same)).1
      cases first
    | named =>
      rw [Schema.toItem_named_cons accessors rfl] at same
      cases same
  | named =>
    rw [Schema.toItem_named_cons hash rfl] at same
    cases other with
    | positional =>
      rw [Schema.toItem_positional_cons accessors rfl] at same
      cases same
    | named =>
      -- The first entries have different names.
      rw [Schema.toItem_named_cons accessors rfl] at same
      have first := (List.cons.inj (MessagePack.Item.map.inj same)).1
      have name := MessagePack.Item.text.inj (Prod.mk.inj first).1
      exact absurd name (by decide)

/-- Octets that are encoded hold the item that is laid out. -/
theorem read_of_encode {a : StorageArgs} (small : a.Small) {layout : Layout} {arg : Bytes}
    (encoded : a.schema.encode layout a.toValue = .ok arg) :
    MessagePack.Item.read arg = .ok (a.schema.toItem layout a.toValue, []) := by
  have sendable := sendable_toValue small
  obtain ⟨short, depth⟩ := sendable.readable layout
  rw [Schema.encode_of_accepted sendable.accepted] at encoded
  obtain rfl := Except.ok.inj encoded
  have read := MessagePack.Item.read_write (Schema.fits_of_short short) (by omega) []
  rwa [List.append_nil] at read

/-- No octets are encoded for two things that the storage is sent, in any layouts. -/
theorem encode_injective {a b : StorageArgs} (small : a.Small) (small' : b.Small)
    {layout other : Layout} {arg : Bytes} (left : a.schema.encode layout a.toValue = .ok arg)
    (right : b.schema.encode other b.toValue = .ok arg) : a = b := by
  have told := told_of_decode ((sendable_toValue small).decode (by decide) left)
  have told' := told_of_decode ((sendable_toValue small').decode (by decide) right)
  have same : a.schema.toItem layout a.toValue = b.schema.toItem other b.toValue := by
    have read := (read_of_encode small left).symm.trans (read_of_encode small' right)
    exact (Prod.mk.inj (Except.ok.inj read)).1
  cases a with
  | allocation args =>
    cases b with
    | allocation args' => rw [told.unique told']
    | chunk chunk => exact absurd same (toItem_ne args chunk layout other)
  | chunk chunk =>
    cases b with
    | allocation args => exact absurd same.symm (toItem_ne args chunk other layout)
    | chunk chunk' => rw [told.unique told']

/-- **Requests to the storage always encode and lose nothing.** What the storage is sent, with
lengths of 32 bits, is encoded in either layout; the octets are decoded to the value that was sent
and tell each part of it; and they are encoded for nothing else, in no layout. -/
theorem decode_encode_unique {a : StorageArgs} (small : a.Small) (layout : Layout) :
    ∃ arg, a.schema.encode layout a.toValue = .ok arg ∧ a.schema.decode arg = .ok a.toValue ∧
      a.Told arg ∧
      ∀ b : StorageArgs, b.Small → ∀ other, b.schema.encode other b.toValue = .ok arg → b = a := by
  have sendable := sendable_toValue small
  have encoded := Schema.encode_of_accepted sendable.accepted layout
  have decoded := sendable.decode (by decide) encoded
  refine ⟨_, encoded, decoded, told_of_decode decoded, fun b small' other encoded' => ?_⟩
  exact encode_injective small' small encoded' encoded

/-- A seed above 64 bits is told by the octets of either layout. -/
theorem decode_encode_unique_wide_seed :
    let seed : Fin Value.natBound := ⟨340282366920938463463374607431768211455, by decide⟩
    let a : AllocationArgs := ⟨⟨List.replicate 32 7, rfl⟩, 18446744073709551615, some seed⟩
    Small (.allocation a) ∧ ∀ layout, ∃ arg,
      AllocationArgs.schema.encode layout a.toValue = .ok arg ∧
      fieldTold AllocationArgs.schema arg "file_id_seed" = some (.nat seed.val) := by
  intro seed a
  have small : Small (.allocation a) := trivial
  refine ⟨small, fun layout => ?_⟩
  obtain ⟨arg, encoded, _, told, _⟩ := decode_encode_unique small layout
  exact ⟨arg, encoded, told.fileIdSeed⟩

end StorageArgs

end CertifiedCalls
