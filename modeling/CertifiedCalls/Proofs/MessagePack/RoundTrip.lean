import CertifiedCalls.MessagePack.Format
import CertifiedCalls.Proofs.MessagePack.Head

/-! # Reading items back
An item **fits** the format when its integers have 64 bits and its lengths 32, and it has a
**depth**, the most sequences and maps that lie inside each other. Reading takes back an item that
fits, whatever follows it, within a budget that covers its depth (`readWithin_write`). -/

namespace CertifiedCalls

namespace Bytes

/-- A text is read back from its UTF-8 encoding. -/
@[simp] theorem toText?_ofText (s : String) : toText? (ofText s) = some s := by
  have valid : (ByteArray.mk (ofText s).toArray).IsValidUTF8 := s.isValidUTF8
  rw [toText?, String.fromUTF8?, dif_pos valid]
  rfl

/-- The text that is read from octets has them as its UTF-8 encoding. -/
theorem eq_ofText_of_toText? {bs : Bytes} {s : String} (read : bs.toText? = some s) :
    bs = ofText s := by
  rw [toText?, String.fromUTF8?] at read
  split at read
  · obtain rfl := Option.some.inj read
    rfl
  · cases read

/-- A text has at most four octets for each character. -/
theorem length_ofText_ofList_le (cs : List Char) :
    (ofText (String.ofList cs)).length ≤ 4 * cs.length := by
  show (String.ofList cs).utf8ByteSize ≤ 4 * cs.length
  induction cs with
  | nil => exact Nat.le_refl _
  | cons c cs ih =>
    have width := c.utf8Size_le_four
    rw [String.ofList_cons, String.utf8ByteSize_append, String.utf8ByteSize_singleton,
      List.length_cons]
    omega

end Bytes

namespace MessagePack

namespace Item

mutual

/-- An item **fits** the format. -/
def Fits : Item → Prop
  | .int i => -9223372036854775808 ≤ i ∧ i < 18446744073709551616
  | .text s => (Bytes.ofText s).length < 4294967296
  | .brokenText octets => octets.length < 4294967296 ∧ octets.toText? = none
  | .binary octets => octets.length < 4294967296
  | .array items => items.length < 4294967296 ∧ AllFit items
  | .map entries => entries.length < 4294967296 ∧ EntriesFit entries
  | .ext type octets => (-128 ≤ type ∧ type < 128) ∧ octets.length < 4294967296
  | _ => True

/-- All items fit. -/
def AllFit : List Item → Prop
  | [] => True
  | item :: rest => item.Fits ∧ AllFit rest

/-- All keys and values fit. -/
def EntriesFit : List (Item × Item) → Prop
  | [] => True
  | (key, value) :: rest => key.Fits ∧ value.Fits ∧ EntriesFit rest

end

mutual

/-- An item is **short** when its texts, byte strings, sequences and maps have lengths of 32 bits. -/
def Short : Item → Prop
  | .text s => (Bytes.ofText s).length < 4294967296
  | .brokenText octets => octets.length < 4294967296
  | .binary octets => octets.length < 4294967296
  | .array items => items.length < 4294967296 ∧ AllShort items
  | .map entries => entries.length < 4294967296 ∧ EntriesShort entries
  | .ext _ octets => octets.length < 4294967296
  | _ => True

/-- All items are short. -/
def AllShort : List Item → Prop
  | [] => True
  | item :: rest => item.Short ∧ AllShort rest

/-- All keys and values are short. -/
def EntriesShort : List (Item × Item) → Prop
  | [] => True
  | (key, value) :: rest => key.Short ∧ value.Short ∧ EntriesShort rest

end

mutual

/-- The most sequences and maps of an item that lie inside each other. -/
def depth : Item → Nat
  | .array items => depthOfItems items + 1
  | .map entries => depthOfEntries entries + 1
  | _ => 0

/-- The greatest depth of items. -/
def depthOfItems : List Item → Nat
  | [] => 0
  | item :: rest => max item.depth (depthOfItems rest)

/-- The greatest depth of keys and values. -/
def depthOfEntries : List (Item × Item) → Nat
  | [] => 0
  | (key, value) :: rest => max (max key.depth value.depth) (depthOfEntries rest)

end

end Item

/-- Octets are read back, whatever follows them. -/
theorem readOctets_append (octets rest : Bytes) :
    readOctets octets.length (octets ++ rest) = .ok (octets, rest) := by
  rw [readOctets, Bytes.splitAt?_append]

/-- What reading does once the head of an item is known. -/
def readContents (budget : Nat) (head : Head) (bs : Bytes) : Except DecodeError (Item × Bytes) :=
  match head with
  | .nil => .ok (.nil, bs)
  | .bool b => .ok (.bool b, bs)
  | .int i => .ok (.int i, bs)
  | .single x => .ok (.single x, bs)
  | .double x => .ok (.double x, bs)
  | .text n =>
    if budget < 2 then .error .tooDeep
    else (readOctets n bs).map fun (octets, bs) => (.ofTextOctets octets, bs)
  | .binary n =>
    if budget < 1 then .error .tooDeep
    else (readOctets n bs).map fun (octets, bs) => (.binary octets, bs)
  | .array n =>
    match budget with
    | 0 => .error .tooDeep
    | inner + 1 =>
      (readMany (fun bs => Item.readWithin inner bs) n bs).map fun (items, bs) => (.array items, bs)
  | .map n =>
    match budget with
    | 0 => .error .tooDeep
    | inner + 1 =>
      (readMany (readEntry fun bs => Item.readWithin inner bs) n bs).map
        fun (entries, bs) => (.map entries, bs)
  | .ext n =>
    if budget < 1 then .error .tooDeep
    else (Head.readNumber 1 bs).bind fun (type, bs) =>
      if budget < 2 then .error .tooDeep
      else (readOctets n bs).map fun (octets, bs) => (.ext (signed 1 type) octets, bs)

/-- Reading an item is reading its head and then its contents. -/
theorem readWithin_succ (budget : Nat) (bs : Bytes) :
    Item.readWithin (budget + 1) bs
      = (Head.read bs).bind fun (head, bs) => readContents budget head bs := by
  rw [Item.readWithin]
  cases Head.read bs with
  | error _ => rfl
  | ok found =>
    obtain ⟨head, bs⟩ := found
    cases head with
    | nil | bool | int | single | double => rfl
    | text n =>
      simp only [bind, Except.bind, readContents]
      by_cases h : budget < 2
      · rw [if_pos h, if_pos h]
        rfl
      · rw [if_neg h, if_neg h]
        cases readOctets n bs <;> rfl
    | binary n =>
      simp only [bind, Except.bind, readContents]
      by_cases h : budget < 1
      · rw [if_pos h, if_pos h]
        rfl
      · rw [if_neg h, if_neg h]
        cases readOctets n bs <;> rfl
    | array n =>
      cases budget with
      | zero => rfl
      | succ inner =>
        simp only [bind, Except.bind, readContents]
        cases readMany (fun bs => Item.readWithin inner bs) n bs <;> rfl
    | map n =>
      cases budget with
      | zero => rfl
      | succ inner =>
        simp only [bind, Except.bind, readContents]
        cases readMany (readEntry fun bs => Item.readWithin inner bs) n bs <;> rfl
    | ext n =>
      simp only [bind, Except.bind, readContents]
      by_cases h : budget < 1
      · rw [if_pos h, if_pos h]
        rfl
      · rw [if_neg h, if_neg h]
        cases Head.readNumber 1 bs with
        | error _ => rfl
        | ok found =>
          simp only
          by_cases h : budget < 2
          · rw [if_pos h, if_pos h]
            rfl
          · rw [if_neg h, if_neg h]
            cases readOctets n found.2 <;> rfl

/-! ### Items from what their parts are read as -/

/-- One more thing is read after the one before it. -/
theorem readMany_succ {α : Type} {read : Bytes → Except DecodeError (α × Bytes)} {n : Nat}
    {bs mid rest : Bytes} {first : α} {others : List α} (head : read bs = .ok (first, mid))
    (tail : readMany read n mid = .ok (others, rest)) :
    readMany read (n + 1) bs = .ok (first :: others, rest) := by
  simp only [readMany, bind, Except.bind, head, tail]
  rfl

/-- An entry is read as its key and then its value. -/
theorem readEntry_eq {α : Type} {read : Bytes → Except DecodeError (α × Bytes)}
    {bs mid rest : Bytes} {key value : α} (first : read bs = .ok (key, mid))
    (second : read mid = .ok (value, rest)) :
    readEntry read bs = .ok ((key, value), rest) := by
  simp only [readEntry, bind, Except.bind, first, second]
  rfl

/-- What is read after a head that was written. -/
theorem readWithin_head (head : Head) (fits : head.Fits) (budget : Nat) (rest : Bytes) :
    Item.readWithin (budget + 1) (head.write ++ rest) = readContents budget head rest := by
  rw [readWithin_succ, Head.read_write fits]
  rfl

namespace Item

mutual

/-- Reading takes back an item that fits, whatever follows it, within a budget that covers its
depth. -/
theorem readWithin_write (item : Item) (fits : item.Fits) (rest : Bytes) (budget : Nat)
    (covers : 2 * item.depth + 3 ≤ budget) :
    readWithin budget (item.write ++ rest) = .ok (item, rest) := by
  -- The head takes one level of the budget, the contents what is left of it.
  obtain ⟨budget, rfl⟩ : ∃ n, budget = n + 1 := ⟨budget - 1, by omega⟩
  cases item with
  | nil => exact readWithin_head .nil trivial budget rest
  | bool b => exact readWithin_head (.bool b) trivial budget rest
  | int i => exact readWithin_head (.int i) fits budget rest
  | single x => exact readWithin_head (.single x) trivial budget rest
  | double x => exact readWithin_head (.double x) trivial budget rest
  | text s =>
    have deep : ¬ budget < 2 := by omega
    rw [write, List.append_assoc, readWithin_head (.text _) fits, readContents, if_neg deep,
      readOctets_append]
    simp only [Except.map, ofTextOctets, Bytes.toText?_ofText]
  | brokenText octets =>
    obtain ⟨short, broken⟩ := fits
    have deep : ¬ budget < 2 := by omega
    rw [write, List.append_assoc, readWithin_head (.text _) short, readContents, if_neg deep,
      readOctets_append]
    simp only [Except.map, ofTextOctets, broken]
  | binary octets =>
    have deep : ¬ budget < 1 := by omega
    rw [write, List.append_assoc, readWithin_head (.binary _) fits, readContents, if_neg deep,
      readOctets_append]
    rfl
  | array items =>
    obtain ⟨short, all⟩ := fits
    rw [depth] at covers
    obtain ⟨inner, rfl⟩ : ∃ n, budget = n + 1 := ⟨budget - 1, by omega⟩
    rw [write, List.append_assoc, readWithin_head (.array _) short, readContents,
      readMany_writeItems items all rest inner (by omega)]
    rfl
  | map entries =>
    obtain ⟨short, all⟩ := fits
    rw [depth] at covers
    obtain ⟨inner, rfl⟩ : ∃ n, budget = n + 1 := ⟨budget - 1, by omega⟩
    rw [write, List.append_assoc, readWithin_head (.map _) short, readContents,
      readMany_writeEntries entries all rest inner (by omega)]
    rfl
  | ext type octets =>
    obtain ⟨⟨low, high⟩, short⟩ := fits
    obtain ⟨octet, same⟩ := signed_complement Nat.one_pos low high
    have deep : ¬ budget < 1 := by omega
    -- The type octet and the payload are both checked against the budget.
    have deeper : ¬ budget < 2 := by omega
    rw [write, List.append_assoc, List.append_assoc, readWithin_head (.ext _) short, readContents,
      if_neg deep, twosComplement_eq, Head.readNumber_bigEndian octet]
    simp only [Except.bind]
    rw [if_neg deeper, readOctets_append, same]
    rfl

/-- Reading takes back a sequence of items. -/
theorem readMany_writeItems (items : List Item) (fit : AllFit items) (rest : Bytes) (budget : Nat)
    (covers : 2 * depthOfItems items + 3 ≤ budget) :
    readMany (fun bs => readWithin budget bs) items.length (writeItems items ++ rest)
      = .ok (items, rest) := by
  match items, fit with
  | [], _ => rfl
  | item :: later, ⟨first, others⟩ =>
    rw [depthOfItems] at covers
    rw [writeItems, List.append_assoc]
    exact readMany_succ (readWithin_write item first _ budget (by omega))
      (readMany_writeItems later others rest budget (by omega))

/-- Reading takes back a sequence of entries. -/
theorem readMany_writeEntries (entries : List (Item × Item)) (fit : EntriesFit entries)
    (rest : Bytes) (budget : Nat) (covers : 2 * depthOfEntries entries + 3 ≤ budget) :
    readMany (readEntry fun bs => readWithin budget bs) entries.length
      (writeEntries entries ++ rest) = .ok (entries, rest) := by
  match entries, fit with
  | [], _ => rfl
  | (key, value) :: later, ⟨keyFits, valueFits, others⟩ =>
    rw [depthOfEntries] at covers
    rw [writeEntries, List.append_assoc, List.append_assoc]
    exact readMany_succ
      (readEntry_eq (readWithin_write key keyFits _ budget (by omega))
        (readWithin_write value valueFits _ budget (by omega)))
      (readMany_writeEntries later others rest budget (by omega))

end

/-- Reading takes back an item that fits and is nested at most 510 deep, whatever follows it. -/
theorem read_write {item : Item} (fits : item.Fits) (shallow : item.depth ≤ 510) (rest : Bytes) :
    read (item.write ++ rest) = .ok (item, rest) :=
  readWithin_write item fits rest depthBudget (by rw [depthBudget]; omega)

end Item

end MessagePack

end CertifiedCalls
