import CertifiedCalls.Proofs.Codec.RoundTrip
import CertifiedCalls.Proofs.MessagePack.Shown

/-! # Names that no string holds
A key that is no text gives its value the name that shows it, and what is shown can have more octets
than the length of a string counts: a long sequence of the least positive double does
(`utf8ByteSize_toText_leastDoubles`). When such a name is written, the head of its string announces
fewer octets than follow, so no message that starts like this is decoded to a value with the name
(`decode_ne_of_long`). -/

namespace CertifiedCalls

open MessagePack (Head Item)

/-! ### Long renderings -/

/-- The least positive double. -/
def Binary64.least : Binary64 := ⟨1⟩

/-- It is shown by a five at the 324th place after the point. -/
theorem Binary64.utf8ByteSize_toText_least : least.toText.utf8ByteSize = 326 := by
  have value : least.value = .finite false 1 (-1074) := by decide +kernel
  have shortest : shortestDecimal .double 1 (-1074) = (5, -324) := by decide +kernel
  have ascii : ∀ c ∈ positional 5 (-324), c.val ≤ 127 := fun c => ascii_of_mem_positional
  rw [toText, value]
  simp only [FloatValue.toText, shortest, Nat.one_ne_zero, if_false, Bool.false_eq_true]
  rw [utf8ByteSize_ofList_of_ascii ascii]
  decide +kernel

namespace MessagePack.Item

/-- Copies of a text in brackets take two octets more each. -/
theorem utf8ByteSize_bracketed_replicate (text : String) (n : Nat) :
    (bracketed (List.replicate (n + 1) text)).utf8ByteSize = (n + 1) * (text.utf8ByteSize + 2) := by
  have inner : (String.intercalate ", " (List.replicate (n + 1) text)).utf8ByteSize + 2
      = (n + 1) * (text.utf8ByteSize + 2) := by
    induction n with
    | zero => simp
    | succ n ih =>
      have comma : (", " : String).utf8ByteSize = 2 := by decide
      rw [List.replicate_succ] at ih
      rw [List.replicate_succ, List.replicate_succ, String.intercalate_cons_cons,
        String.utf8ByteSize_append, String.utf8ByteSize_append, comma, Nat.succ_mul]
      omega
  have opening : ("[" : String).utf8ByteSize = 1 := by decide
  have closing : ("]" : String).utf8ByteSize = 1 := by decide
  rw [bracketed, String.utf8ByteSize_append, String.utf8ByteSize_append, opening, closing]
  omega

/-- A sequence of so many copies of the **least positive double**. -/
def leastDoubles (n : Nat) : Item := .array (List.replicate n (.double .least))

/-- Each of them is shown by 328 octets. -/
theorem utf8ByteSize_toText_leastDoubles (n : Nat) :
    (leastDoubles (n + 1)).toText.utf8ByteSize = (n + 1) * 328 := by
  rw [leastDoubles, toText, toTexts_eq_map, List.map_replicate, utf8ByteSize_bracketed_replicate,
    toText, Binary64.utf8ByteSize_toText_least]

/-- Each of them is written in nine octets. -/
theorem length_write_leastDoubles (n : Nat) : (leastDoubles n).write.length ≤ 9 * n + 5 := by
  have each : (Item.double .least).write.length = 9 := by decide
  have items : (writeItems (List.replicate n (.double .least))).length = 9 * n := by
    induction n with
    | zero => rfl
    | succ n ih =>
      rw [List.replicate_succ, writeItems, List.length_append, each, ih, Nat.mul_succ, Nat.add_comm]
  have head (n : Nat) : (Head.array n).write.length ≤ 5 := by
    rw [Head.write]
    split
    · exact Nat.le_add_left 1 4
    · split <;> simp [Head.marked, Bytes.length_bigEndian]
  rw [leastDoubles, write, List.length_append, items, Nat.add_comm]
  exact Nat.add_le_add_left (head _) _

/-- They fit the format when their number does. -/
theorem fits_leastDoubles {n : Nat} (few : n < 4294967296) : (leastDoubles n).Fits := by
  refine ⟨by rwa [List.length_replicate], allFit_iff.mpr fun item mem => ?_⟩
  obtain rfl := List.eq_of_mem_replicate mem
  trivial

/-- They stand in one sequence. -/
theorem depth_leastDoubles (n : Nat) : (leastDoubles n).depth = 1 := by
  have flat : depthOfItems (List.replicate n (.double .least)) = 0 := by
    induction n with
    | zero => rfl
    | succ n ih =>
      rw [List.replicate_succ, depthOfItems, ih]
      rfl
  rw [leastDoubles, depth, flat]

/-! ### Short readings -/

/-- A key that starts like a long string gives a name whose length has 32 bits. -/
theorem utf8ByteSize_fieldName_lt {budget : Nat} {bs rest : Bytes} {key : Item}
    (read : readWithin (budget + 1) (0xDB :: bs) = .ok (key, rest)) :
    (fieldName key).utf8ByteSize < 4294967296 := by
  have head : Head.read (0xDB :: bs) = Head.readFrom 4 .text bs := rfl
  rw [readWithin_succ, head, Head.readFrom] at read
  cases number : Head.readNumber 4 bs with
  | error e =>
    rw [number] at read
    cases read
  | ok found =>
    obtain ⟨n, bs'⟩ := found
    obtain ⟨-, -, ⟨small, -⟩, -⟩ := Head.takes_readNumber 4 bs n bs' number
    rw [number] at read
    change (if budget < 2 then _ else _) = _ at read
    split at read
    · cases read
    · cases taken : readOctets n bs' with
      | error e =>
        rw [taken] at read
        cases read
      | ok found =>
        obtain ⟨octets, bs''⟩ := found
        obtain ⟨-, -, ⟨rfl, -⟩, -⟩ := takes_readOctets n bs' octets bs'' taken
        rw [taken] at read
        obtain ⟨rfl, -⟩ := Prod.mk.inj (Except.ok.inj read)
        rw [ofTextOctets]
        split
        · rename_i s text
          rw [Bytes.eq_ofText_of_toText? text] at small
          exact small
        · exact Nat.zero_lt_succ _

/-- A map of one entry whose key starts like this is read as one whose name is short. -/
theorem exists_entry_of_read {bs rest : Bytes} {item : Item}
    (read : read (0x81 :: 0xDB :: bs) = .ok (item, rest)) :
    ∃ key value, item = .map [(key, value)] ∧ (fieldName key).utf8ByteSize < 4294967296 := by
  have head : Head.read (0x81 :: 0xDB :: bs) = .ok (.map 1, 0xDB :: bs) := rfl
  change readWithin (1023 + 1) _ = _ at read
  rw [readWithin_succ, head] at read
  change (readMany (readEntry fun bs => readWithin (1021 + 1) bs) 1 (0xDB :: bs)).map _ = _ at read
  cases first : readWithin (1021 + 1) (0xDB :: bs) with
  | error e =>
    simp [readMany, readEntry, first, bind, Except.bind, Except.map] at read
  | ok found =>
    obtain ⟨key, bs'⟩ := found
    cases second : readWithin (1021 + 1) bs' with
    | error e =>
      simp [readMany, readEntry, first, second, bind, Except.bind, Except.map] at read
    | ok found =>
      obtain ⟨value, bs''⟩ := found
      rw [readMany_succ (readEntry_eq first second) rfl] at read
      obtain ⟨rfl, -⟩ := Prod.mk.inj (Except.ok.inj read)
      exact ⟨key, value, rfl, utf8ByteSize_fieldName_lt first⟩

end MessagePack.Item

namespace Schema

/-- A map from such a sequence to nil is read from few octets, and decoded where a schema takes
anything. -/
theorem decode_leastDoubles {n : Nat} (few : n < 4294967296) :
    let item : Item := .map [(.leastDoubles n, .nil)]
    item.write.length ≤ 9 * n + 7 ∧ item.depth = 2 ∧ Item.read item.write = .ok (item, []) ∧
      any.decode item.write = .ok (.record [((Item.leastDoubles n).toText, .null)]) := by
  intro item
  have length : item.write.length = (Item.leastDoubles n).write.length + 2 := by
    simp [item, Item.write, Item.writeEntries, Head.write]
  have depth : item.depth = 2 := by
    simp [item, Item.depth, Item.depthOfEntries, Item.depth_leastDoubles]
  have fits : item.Fits :=
    ⟨show 1 < 4294967296 by decide, Item.fits_leastDoubles few, trivial, trivial⟩
  have read : Item.read item.write = .ok (item, []) := by
    have back := Item.read_write fits (by rw [depth]; decide) []
    rwa [List.append_nil] at back
  have written := Item.length_write_leastDoubles n
  exact ⟨by omega, depth, read, decode_eq_ok_iff.mpr ⟨item, read, rfl, rfl⟩⟩

/-- **A name that no string holds is lost**: what is encoded for a record of a field with such a name,
where a schema takes anything, is not decoded as the record. -/
theorem decode_ne_of_long {name : String} (long : 4294967296 ≤ name.utf8ByteSize) (v : Value)
    (layout : Layout) :
    ∃ others, any.encode layout (.record [(name, v)]) = .ok others ∧
      any.decode others ≠ .ok (.record [(name, v)]) := by
  refine ⟨_, rfl, fun decoded => ?_⟩
  obtain ⟨item, read, conformed, -⟩ := decode_eq_ok_iff.mp decoded
  have head : (Head.text (Bytes.ofText name).length).write
      = 0xDB :: Bytes.bigEndian 4 (Bytes.ofText name).length := by
    have length : 4294967296 ≤ (Bytes.ofText name).length := long
    rw [Head.write, if_neg (by omega), if_neg (by omega), if_neg (by omega)]
    rfl
  have one : (Head.map 1).write = [0x81] := rfl
  have written : (any.toItem layout (.record [(name, v)])).write
      = 0x81 :: 0xDB :: (Bytes.bigEndian 4 (Bytes.ofText name).length ++ Bytes.ofText name
        ++ (v.toItem.write ++ [])) := by
    cases layout <;>
      simp [toItem, Value.toItem, Value.toEntries, Item.write, Item.writeEntries, head, one]
  rw [written] at read
  obtain ⟨key, value, rfl, small⟩ := Item.exists_entry_of_read read
  have same : (Value.record [(fieldName key, Value.ofItem value)]) = .record [(name, v)] := conformed
  obtain ⟨rfl, -⟩ := Prod.mk.inj (List.cons.inj (Value.record.inj same)).1
  exact Nat.not_lt.mpr long small

end Schema

end CertifiedCalls
