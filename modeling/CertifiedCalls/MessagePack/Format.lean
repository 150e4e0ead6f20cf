import CertifiedCalls.MessagePack.Head
import CertifiedCalls.MessagePack.Item

/-! # The MessagePack format
Items are written in the shortest form and read within a **depth budget**. Every item takes one
unit of the budget before its head is read, and so do the elements of a sequence, the contents of a
byte string and an extension (one before its type, one before its contents); a string takes two.
Elements share what their sequence leaves them. -/

namespace CertifiedCalls.MessagePack

namespace Item

mutual

/-- The octets of an item. -/
def write : Item → Bytes
  | .nil => Head.nil.write
  | .bool b => (Head.bool b).write
  | .int i => (Head.int i).write
  | .single x => (Head.single x).write
  | .double x => (Head.double x).write
  | .text s => (Head.text (Bytes.ofText s).length).write ++ Bytes.ofText s
  | .brokenText octets => (Head.text octets.length).write ++ octets
  | .binary octets => (Head.binary octets.length).write ++ octets
  | .array items => (Head.array items.length).write ++ writeItems items
  | .map entries => (Head.map entries.length).write ++ writeEntries entries
  | .ext type octets => (Head.ext octets.length).write ++ twosComplement 1 type ++ octets

/-- The octets of a sequence of items. -/
def writeItems : List Item → Bytes
  | [] => []
  | item :: rest => item.write ++ writeItems rest

/-- The octets of a sequence of entries. -/
def writeEntries : List (Item × Item) → Bytes
  | [] => []
  | (key, value) :: rest => key.write ++ (value.write ++ writeEntries rest)

end

end Item

/-- The first `n` octets and the rest. -/
def readOctets (n : Nat) (bs : Bytes) : Except DecodeError (Bytes × Bytes) :=
  match bs.splitAt? n with
  | some found => .ok found
  | none => .error (.truncated n bs.length)

/-- Reads so many things one after the other. -/
def readMany {α : Type} (read : Bytes → Except DecodeError (α × Bytes)) :
    Nat → Bytes → Except DecodeError (List α × Bytes)
  | 0, bs => .ok ([], bs)
  | n + 1, bs => do
    let (first, bs) ← read bs
    let (rest, bs) ← readMany read n bs
    return (first :: rest, bs)

/-- Reads a key and a value. -/
def readEntry {α : Type} (read : Bytes → Except DecodeError (α × Bytes)) (bs : Bytes) :
    Except DecodeError ((α × α) × Bytes) := do
  let (key, bs) ← read bs
  let (value, bs) ← read bs
  return ((key, value), bs)

/-- The string with the given octets. -/
def Item.ofTextOctets (octets : Bytes) : Item :=
  match octets.toText? with
  | some s => .text s
  | none => .brokenText octets

/-- The item at the start of a byte string, and what follows it, within a depth budget. -/
def Item.readWithin : Nat → Bytes → Except DecodeError (Item × Bytes)
  | 0, _ => .error .tooDeep
  | budget + 1, bs => do
    let (head, bs) ← Head.read bs
    match head with
    | .nil => return (.nil, bs)
    | .bool b => return (.bool b, bs)
    | .int i => return (.int i, bs)
    | .single x => return (.single x, bs)
    | .double x => return (.double x, bs)
    | .text n =>
      if budget < 2 then throw .tooDeep
      let (octets, bs) ← readOctets n bs
      return (.ofTextOctets octets, bs)
    | .binary n =>
      if budget < 1 then throw .tooDeep
      let (octets, bs) ← readOctets n bs
      return (.binary octets, bs)
    | .array n =>
      match budget with
      | 0 => throw .tooDeep
      | inner + 1 =>
        let (items, bs) ← readMany (fun bs => readWithin inner bs) n bs
        return (.array items, bs)
    | .map n =>
      match budget with
      | 0 => throw .tooDeep
      | inner + 1 =>
        let (entries, bs) ← readMany (readEntry fun bs => readWithin inner bs) n bs
        return (.map entries, bs)
    | .ext n =>
      if budget < 1 then throw .tooDeep
      let (type, bs) ← Head.readNumber 1 bs
      if budget < 2 then throw .tooDeep
      let (octets, bs) ← readOctets n bs
      return (.ext (signed 1 type) octets, bs)

/-- The depth budget of a whole message. -/
def depthBudget : Nat := 1024

/-- The item at the start of a byte string, and what follows it. -/
def Item.read (bs : Bytes) : Except DecodeError (Item × Bytes) := readWithin depthBudget bs

end CertifiedCalls.MessagePack
