import CertifiedCalls.Proofs.MessagePack.RoundTrip
import Mathlib

/-! # What reading takes
A reader **takes** things of some kind when each thing that it reads stands at the front of the
octets and is read from that front whatever follows it. Readers that run one after the other take
what their parts take (`Takes.bind`), so the reader of items takes items that fit the format
(`takes_readWithin`): reading goes from left to right and uses up just the octets of one item. -/

namespace CertifiedCalls.MessagePack

variable {α β : Type}

/-- What a reader **takes**: what it reads stands at the front of the octets, is as said of a front
of so many octets, and is read from there whatever follows. -/
def Takes (good : Nat → α → Prop) (read : Bytes → Except DecodeError (α × Bytes)) : Prop :=
  ∀ bs x rest, read bs = .ok (x, rest) →
    ∃ front, bs = front ++ rest ∧ good front.length x ∧ ∀ more, read (front ++ more) = .ok (x, more)

namespace Takes

variable {good : Nat → α → Prop} {read : Bytes → Except DecodeError (α × Bytes)}

/-- A reader that takes no octets. -/
theorem pure {x : α} (h : good 0 x) : Takes good fun bs => .ok (x, bs) := by
  intro bs y rest eq
  obtain ⟨rfl, rfl⟩ := Prod.mk.inj (Except.ok.inj eq)
  exact ⟨[], rfl, h, fun _ => rfl⟩

/-- A reader that gives up takes anything. -/
theorem throw (e : DecodeError) : Takes good fun _ => .error e :=
  fun _ _ _ eq => nomatch eq

/-- A reader that gives up under a condition. -/
theorem guarded {refused : Prop} [Decidable refused] {e : DecodeError}
    (allowed : ¬ refused → Takes good read) :
    Takes good fun bs => if refused then .error e else read bs := by
  by_cases h : refused
  · simp only [if_pos h]
    exact throw e
  · simp only [if_neg h]
    exact allowed h

/-- One reader after another, which may depend on what the first has read. -/
theorem bind {later : Nat → β → Prop} (first : Takes good read)
    (next : α → Bytes → Except DecodeError (β × Bytes))
    (second : ∀ x n, good n x → Takes (fun m y => later (n + m) y) (next x)) :
    Takes later fun bs => (read bs).bind fun (x, bs) => next x bs := by
  intro bs y rest eq
  dsimp only at eq
  cases here : read bs with
  | error e =>
    rw [here] at eq
    cases eq
  | ok found =>
    obtain ⟨x, mid⟩ := found
    rw [here] at eq
    obtain ⟨front, rfl, x_good, again⟩ := first bs x mid here
    obtain ⟨back, rfl, y_good, more_again⟩ := second x _ x_good mid y rest eq
    refine ⟨front ++ back, (List.append_assoc ..).symm, List.length_append ▸ y_good, fun more => ?_⟩
    dsimp only
    rw [List.append_assoc, again]
    exact more_again more

/-- A reader whose result is changed. -/
theorem map {later : Nat → β → Prop} (change : α → β) (first : Takes good read)
    (kept : ∀ x n, good n x → later n (change x)) :
    Takes later fun bs => (read bs).map fun (x, bs) => (change x, bs) := by
  intro bs y rest eq
  dsimp only at eq
  cases here : read bs with
  | error e =>
    rw [here] at eq
    cases eq
  | ok found =>
    obtain ⟨x, mid⟩ := found
    rw [here] at eq
    obtain ⟨rfl, rfl⟩ := Prod.mk.inj (Except.ok.inj eq)
    obtain ⟨front, rfl, x_good, again⟩ := first bs x mid here
    refine ⟨front, rfl, kept x _ x_good, fun more => ?_⟩
    dsimp only
    rw [again]
    rfl

/-- What is read from a message is read from it whatever is appended. -/
theorem append (h : Takes good read) {bs rest : Bytes} {x : α} (eq : read bs = .ok (x, rest))
    (more : Bytes) : read (bs ++ more) = .ok (x, rest ++ more) := by
  obtain ⟨front, rfl, _, again⟩ := h bs x rest eq
  rw [List.append_assoc]
  exact again _

end Takes

/-! ### Numbers and heads -/

/-- Contents of so many octets are taken. -/
theorem takes_readOctets (n : Nat) :
    Takes (fun taken octets => octets.length = n ∧ taken = n) (readOctets n) := by
  intro bs octets rest eq
  rw [readOctets] at eq
  split at eq
  · rename_i found split
    obtain rfl := Except.ok.inj eq
    obtain ⟨rfl, rfl⟩ := Bytes.eq_of_splitAt?_eq_some split
    exact ⟨octets, rfl, ⟨rfl, rfl⟩, fun more => readOctets_append octets more⟩
  · cases eq

/-- The number of one octet in two's complement. -/
theorem signed_octet {n : Nat} (h : n < 1 <<< (8 * 1)) : -128 ≤ signed 1 n ∧ signed 1 n < 128 := by
  have bound : n < 256 := h
  have halves : (1 <<< (8 * 1 - 1) : Nat) = 128 ∧ (1 <<< (8 * 1) : Nat) = 256 := by decide
  rw [signed, halves.1, halves.2]
  split <;> omega

namespace Head

/-- The octets that a head takes at least: one, and those of a floating-point number. -/
def size : Head → Nat
  | .single _ => 5
  | .double _ => 9
  | _ => 1

/-- Numbers of so many octets are taken. -/
theorem takes_readNumber (width : Nat) :
    Takes (fun taken n => n < 1 <<< (8 * width) ∧ taken = width) (readNumber width) := by
  intro bs n rest eq
  rw [readNumber] at eq
  split at eq
  · rename_i front rest' split
    obtain ⟨rfl, rfl⟩ := Prod.mk.inj (Except.ok.inj eq)
    obtain ⟨rfl, rfl⟩ := Bytes.eq_of_splitAt?_eq_some split
    refine ⟨front, rfl, ⟨front.toNat_lt, rfl⟩, fun more => ?_⟩
    rw [readNumber, Bytes.splitAt?_append]
  · cases eq

/-- Heads made from numbers are taken. -/
theorem takes_readFrom {width : Nat} {head : Nat → Head}
    (fits : ∀ n, n < 1 <<< (8 * width) → (head n).Fits) (small : ∀ n, (head n).size ≤ width + 1) :
    Takes (fun taken head => head.Fits ∧ head.size ≤ taken + 1) (readFrom width head) := by
  refine (takes_readNumber width).map head ?_
  rintro n _ ⟨bound, rfl⟩
  exact ⟨fits n bound, small n⟩

/-- A signed number of at most eight octets has 64 bits. -/
theorem fits_signed {width n : Nat} (h : n < 1 <<< (8 * width)) (positive : 0 < width)
    (le : width ≤ 8) : (Head.int (signed width n)).Fits := by
  have double : 1 <<< (8 * width) = (1 <<< (8 * width - 1)) * 2 := by
    rw [show 8 * width = 8 * width - 1 + 1 by omega, Nat.shiftLeft_succ, Nat.add_sub_cancel]
    omega
  have half : 1 <<< (8 * width - 1) ≤ 1 <<< 63 := by
    rw [Nat.one_shiftLeft, Nat.one_shiftLeft]
    exact Nat.pow_le_pow_right (by decide) (by omega)
  have top : 1 <<< 63 = 9223372036854775808 := by decide
  rw [Fits, signed]
  split <;> omega

/-- Every marker announces a head that is made from a number of so many octets, none at all when the
marker says everything. -/
theorem readAfter_eq_readFrom {marker : Nat} (octet : marker < 256) :
    ∃ width head, (∀ n, n < 1 <<< (8 * width) → (head n).Fits) ∧
      (∀ n, (head n).size ≤ width + 1) ∧ readAfter marker = readFrom width head := by
  have one (width n : Nat) : 1 ≤ width + 1 := Nat.le_add_left 1 width
  by_cases positive : marker < 0x80
  · exact ⟨0, fun _ => .int marker, fun _ _ => ⟨by omega, by omega⟩, one 0,
      funext fun _ => if_pos positive⟩
  by_cases map : marker < 0x90
  · refine ⟨0, fun _ => .map (marker - 0x80), fun _ _ => show _ < _ by omega, one 0,
      funext fun bs => ?_⟩
    exact (if_neg positive).trans (if_pos map)
  by_cases array : marker < 0xA0
  · refine ⟨0, fun _ => .array (marker - 0x90), fun _ _ => show _ < _ by omega, one 0,
      funext fun bs => ?_⟩
    exact (if_neg positive).trans ((if_neg map).trans (if_pos array))
  by_cases text : marker < 0xC0
  · refine ⟨0, fun _ => .text (marker - 0xA0), fun _ _ => show _ < _ by omega, one 0,
      funext fun bs => ?_⟩
    exact (if_neg positive).trans ((if_neg map).trans ((if_neg array).trans (if_pos text)))
  by_cases negative : 0xE0 ≤ marker
  · refine ⟨0, fun _ => .int ((marker : Int) - 256), fun _ _ => ⟨by omega, by omega⟩, one 0,
      funext fun bs => ?_⟩
    exact (if_neg positive).trans ((if_neg map).trans ((if_neg array).trans ((if_neg text).trans
      (if_pos negative))))
  -- What is left are the markers with a meaning of their own, one by one.
  obtain ⟨code, rfl⟩ : ∃ code : Fin 32, marker = 0xC0 + code.val :=
    ⟨⟨marker - 0xC0, by omega⟩, (Nat.add_sub_cancel' (Nat.not_lt.mp text)).symm⟩
  have long {width n : Nat} (le : width ≤ 4) (h : n < 1 <<< (8 * width)) : n < 4294967296 := by
    rw [Nat.one_shiftLeft] at h
    exact Nat.lt_of_lt_of_le h (Nat.pow_le_pow_right (by decide) (show 8 * width ≤ 32 by omega))
  have whole {width n : Nat} (le : width ≤ 8) (h : n < 1 <<< (8 * width)) : (Head.int n).Fits := by
    rw [Nat.one_shiftLeft] at h
    have bound : n < 18446744073709551616 :=
      Nat.lt_of_lt_of_le h (Nat.pow_le_pow_right (by decide) (show 8 * width ≤ 64 by omega))
    exact ⟨by omega, by omega⟩
  match code with
  | 0 => exact ⟨0, fun _ => .nil, fun _ _ => trivial, one _, rfl⟩
  | 1 => exact ⟨0, fun _ => .nil, fun _ _ => trivial, one _, rfl⟩
  | 2 => exact ⟨0, fun _ => .bool false, fun _ _ => trivial, one _, rfl⟩
  | 3 => exact ⟨0, fun _ => .bool true, fun _ _ => trivial, one _, rfl⟩
  | 4 => exact ⟨1, .binary, fun _ => long (by decide), one _, rfl⟩
  | 5 => exact ⟨2, .binary, fun _ => long (by decide), one _, rfl⟩
  | 6 => exact ⟨4, .binary, fun _ => long (by decide), one _, rfl⟩
  | 7 => exact ⟨1, .ext, fun _ => long (by decide), one _, rfl⟩
  | 8 => exact ⟨2, .ext, fun _ => long (by decide), one _, rfl⟩
  | 9 => exact ⟨4, .ext, fun _ => long (by decide), one _, rfl⟩
  | 10 => exact ⟨4, fun n => .single ⟨UInt32.ofNat n⟩, fun _ _ => trivial,
      fun _ => Nat.le_refl _, rfl⟩
  | 11 => exact ⟨8, fun n => .double ⟨UInt64.ofNat n⟩, fun _ _ => trivial,
      fun _ => Nat.le_refl _, rfl⟩
  | 12 => exact ⟨1, fun n => .int n, fun _ => whole (by decide), one _, rfl⟩
  | 13 => exact ⟨2, fun n => .int n, fun _ => whole (by decide), one _, rfl⟩
  | 14 => exact ⟨4, fun n => .int n, fun _ => whole (by decide), one _, rfl⟩
  | 15 => exact ⟨8, fun n => .int n, fun _ => whole (by decide), one _, rfl⟩
  | 16 => exact ⟨1, fun n => .int (signed 1 n), fun _ h => fits_signed h (by decide) (by decide),
      one _, rfl⟩
  | 17 => exact ⟨2, fun n => .int (signed 2 n), fun _ h => fits_signed h (by decide) (by decide),
      one _, rfl⟩
  | 18 => exact ⟨4, fun n => .int (signed 4 n), fun _ h => fits_signed h (by decide) (by decide),
      one _, rfl⟩
  | 19 => exact ⟨8, fun n => .int (signed 8 n), fun _ h => fits_signed h (by decide) (by decide),
      one _, rfl⟩
  | 20 => exact ⟨0, fun _ => .ext 1, fun _ _ => show 1 < _ by decide, one _, rfl⟩
  | 21 => exact ⟨0, fun _ => .ext 2, fun _ _ => show 2 < _ by decide, one _, rfl⟩
  | 22 => exact ⟨0, fun _ => .ext 4, fun _ _ => show 4 < _ by decide, one _, rfl⟩
  | 23 => exact ⟨0, fun _ => .ext 8, fun _ _ => show 8 < _ by decide, one _, rfl⟩
  | 24 => exact ⟨0, fun _ => .ext 16, fun _ _ => show 16 < _ by decide, one _, rfl⟩
  | 25 => exact ⟨1, .text, fun _ => long (by decide), one _, rfl⟩
  | 26 => exact ⟨2, .text, fun _ => long (by decide), one _, rfl⟩
  | 27 => exact ⟨4, .text, fun _ => long (by decide), one _, rfl⟩
  | 28 => exact ⟨2, .array, fun _ => long (by decide), one _, rfl⟩
  | 29 => exact ⟨4, .array, fun _ => long (by decide), one _, rfl⟩
  | 30 => exact ⟨2, .map, fun _ => long (by decide), one _, rfl⟩
  | 31 => exact ⟨4, .map, fun _ => long (by decide), one _, rfl⟩
  | ⟨n + 32, large⟩ => exact absurd large (by omega)

/-- Heads are taken. -/
theorem takes_read : Takes (fun taken head => head.Fits ∧ head.size ≤ taken) read := by
  intro bs head rest eq
  cases bs with
  | nil => cases eq
  | cons marker bs =>
    obtain ⟨width, made, fits, small, announced⟩ := readAfter_eq_readFrom marker.toNat_lt
    rw [read, announced] at eq
    obtain ⟨front, rfl, good, again⟩ := takes_readFrom fits small bs head rest eq
    refine ⟨marker :: front, rfl, good, fun more => ?_⟩
    rw [List.cons_append, read, announced]
    exact again more

end Head

/-! ### Items -/

/-- So many things are taken one after the other, in at least as many octets as all of them take. -/
theorem takes_readMany {good : α → Prop} {size : α → Nat}
    {read : Bytes → Except DecodeError (α × Bytes)}
    (each : Takes (fun taken x => good x ∧ size x ≤ taken) read) (n : Nat) :
    Takes (fun taken xs => xs.length = n ∧ (∀ x ∈ xs, good x) ∧ (xs.map size).sum ≤ taken)
      (readMany read n) := by
  induction n with
  | zero => exact .pure ⟨rfl, fun _ mem => absurd mem List.not_mem_nil, Nat.le_refl _⟩
  | succ n ih =>
    refine each.bind (fun first bs => (readMany read n bs).map (Prod.map (first :: ·) id)) ?_
    rintro first taken ⟨first_good, first_size⟩
    refine ih.map (first :: ·) ?_
    rintro rest _ ⟨length, rest_good, rest_size⟩
    refine ⟨congrArg Nat.succ length, List.forall_mem_cons.mpr ⟨first_good, rest_good⟩, ?_⟩
    rw [List.map_cons, List.sum_cons]
    exact Nat.add_le_add first_size rest_size

/-- Keys and values are taken one after the other, in at least as many octets as both take. -/
theorem takes_readEntry {good : α → Prop} {size : α → Nat}
    {read : Bytes → Except DecodeError (α × Bytes)}
    (each : Takes (fun taken x => good x ∧ size x ≤ taken) read) :
    Takes (fun taken entry => (good entry.1 ∧ good entry.2) ∧ size entry.1 + size entry.2 ≤ taken)
      (readEntry read) :=
  each.bind _ fun key _ ⟨key_good, key_size⟩ =>
    each.map (key, ·) fun _ _ ⟨value_good, value_size⟩ =>
      ⟨⟨key_good, value_good⟩, Nat.add_le_add key_size value_size⟩

namespace Item

mutual

/-- The octets that an item takes at least. -/
def size : Item → Nat
  | .single _ => 5
  | .double _ => 9
  | .text s => (Bytes.ofText s).length + 1
  | .brokenText octets => octets.length + 1
  | .binary octets => octets.length + 1
  | .array items => sizeOfItems items + 1
  | .map entries => sizeOfEntries entries + 1
  | .ext _ octets => octets.length + 2
  | _ => 1

/-- The octets that items take at least. -/
def sizeOfItems : List Item → Nat
  | [] => 0
  | item :: rest => item.size + sizeOfItems rest

/-- The octets that keys and values take at least. -/
def sizeOfEntries : List (Item × Item) → Nat
  | [] => 0
  | (key, value) :: rest => (key.size + value.size) + sizeOfEntries rest

end

/-- The octets of items one by one. -/
theorem sizeOfItems_eq_sum (items : List Item) : sizeOfItems items = (items.map size).sum := by
  induction items with
  | nil => rfl
  | cons item rest ih => rw [sizeOfItems, ih, List.map_cons, List.sum_cons]

/-- The octets of entries one by one. -/
theorem sizeOfEntries_eq_sum (entries : List (Item × Item)) :
    sizeOfEntries entries = (entries.map fun entry => entry.1.size + entry.2.size).sum := by
  induction entries with
  | nil => rfl
  | cons entry rest ih => rw [sizeOfEntries, ih, List.map_cons, List.sum_cons]

/-- Items all of which fit. -/
theorem allFit_iff {items : List Item} : AllFit items ↔ ∀ item ∈ items, item.Fits := by
  induction items with
  | nil => exact ⟨fun _ _ mem => absurd mem List.not_mem_nil, fun _ => trivial⟩
  | cons item rest ih => rw [AllFit, List.forall_mem_cons, ih]

/-- Entries all of which fit. -/
theorem entriesFit_iff {entries : List (Item × Item)} :
    EntriesFit entries ↔ ∀ entry ∈ entries, entry.1.Fits ∧ entry.2.Fits := by
  induction entries with
  | nil => exact ⟨fun _ _ mem => absurd mem List.not_mem_nil, fun _ => trivial⟩
  | cons entry rest ih => rw [EntriesFit, List.forall_mem_cons, ih, and_assoc]

/-- The string with octets of a fitting length fits, and takes one octet more. -/
theorem ofTextOctets_spec {octets : Bytes} (short : octets.length < 4294967296) :
    (ofTextOctets octets).Fits ∧ (ofTextOctets octets).size = octets.length + 1 := by
  rw [ofTextOctets]
  split
  · rename_i s text
    rw [Fits, size, ← Bytes.eq_ofText_of_toText? text]
    exact ⟨short, rfl⟩
  · rename_i broken
    exact ⟨⟨short, broken⟩, rfl⟩

/-- What is read of an item of so many octets: it fits, and takes no more than these. -/
def Measured (taken : Nat) (item : Item) : Prop := item.Fits ∧ item.size ≤ taken

end Item

/-- The contents that a fitting head announces are taken, given that items further down are. -/
theorem takes_readContents {budget before : Nat} {head : Head} (fits : head.Fits)
    (small : head.size ≤ before)
    (deeper : ∀ inner < budget, Takes Item.Measured fun bs => Item.readWithin inner bs) :
    Takes (fun taken => Item.Measured (before + taken)) (readContents budget head) := by
  cases head with
  | nil => exact .pure ⟨trivial, small⟩
  | bool b => exact .pure ⟨trivial, small⟩
  | int i => exact .pure ⟨fits, small⟩
  | single x => exact .pure ⟨trivial, small⟩
  | double x => exact .pure ⟨trivial, small⟩
  | text n =>
    refine .guarded fun _ => (takes_readOctets n).map _ ?_
    rintro octets _ ⟨rfl, rfl⟩
    obtain ⟨text_fits, text_size⟩ := Item.ofTextOctets_spec fits
    refine ⟨text_fits, ?_⟩
    rw [text_size, Nat.add_comm]
    exact Nat.add_le_add_right small _
  | binary n =>
    refine .guarded fun _ => (takes_readOctets n).map _ ?_
    rintro octets _ ⟨rfl, rfl⟩
    refine ⟨fits, ?_⟩
    rw [Item.size, Nat.add_comm]
    exact Nat.add_le_add_right small _
  | array n =>
    cases budget with
    | zero => exact .throw _
    | succ inner =>
      refine (takes_readMany (deeper inner (Nat.lt_succ_self _)) n).map _ ?_
      rintro items taken ⟨rfl, all, sum⟩
      refine ⟨⟨fits, Item.allFit_iff.mpr all⟩, ?_⟩
      rw [Item.size, Item.sizeOfItems_eq_sum, Nat.add_comm]
      exact Nat.add_le_add small sum
  | map n =>
    cases budget with
    | zero => exact .throw _
    | succ inner =>
      refine (takes_readMany (takes_readEntry (deeper inner (Nat.lt_succ_self _))) n).map _ ?_
      rintro entries taken ⟨rfl, all, sum⟩
      refine ⟨⟨fits, Item.entriesFit_iff.mpr all⟩, ?_⟩
      rw [Item.size, Item.sizeOfEntries_eq_sum, Nat.add_comm]
      exact Nat.add_le_add small sum
  | ext n =>
    refine .guarded fun _ => (Head.takes_readNumber 1).bind
      (fun type bs => if budget < 2 then .error .tooDeep
        else (readOctets n bs).map (Prod.map (Item.ext (signed 1 type)) id)) ?_
    rintro type _ ⟨octet, rfl⟩
    refine .guarded fun _ => (takes_readOctets n).map _ ?_
    rintro octets _ ⟨rfl, rfl⟩
    have one : 1 ≤ before := small
    refine ⟨⟨signed_octet octet, fits⟩, ?_⟩
    rw [Item.size]
    omega

namespace Item

/-- **Items are taken**: what is read fits the format, and only its octets are used up. -/
theorem takes_readWithin (budget : Nat) : Takes Measured fun bs => readWithin budget bs := by
  induction budget using Nat.strongRecOn with
  | ind budget ih =>
    cases budget with
    | zero => exact .throw _
    | succ budget =>
      simp only [readWithin_succ]
      exact Head.takes_read.bind (readContents budget) fun head _ ⟨fits, small⟩ =>
        takes_readContents fits small fun inner lt => ih inner (Nat.lt_succ_of_lt lt)

/-- What is read fits the format. -/
theorem fits_of_read {bs rest : Bytes} {item : Item} (h : read bs = .ok (item, rest)) :
    item.Fits := by
  obtain ⟨_, -, ⟨fits, -⟩, -⟩ := takes_readWithin depthBudget bs item rest h
  exact fits

/-- What is read takes no more octets than there are. -/
theorem size_le_of_read {bs rest : Bytes} {item : Item} (h : read bs = .ok (item, rest)) :
    item.size + rest.length ≤ bs.length := by
  obtain ⟨front, rfl, ⟨-, small⟩, -⟩ := takes_readWithin depthBudget bs item rest h
  rw [List.length_append]
  exact Nat.add_le_add_right small _

/-- What is read is read whatever is appended. -/
theorem read_append {bs rest : Bytes} {item : Item} (h : read bs = .ok (item, rest))
    (more : Bytes) : read (bs ++ more) = .ok (item, rest ++ more) :=
  (takes_readWithin depthBudget).append h more

end Item

end CertifiedCalls.MessagePack
