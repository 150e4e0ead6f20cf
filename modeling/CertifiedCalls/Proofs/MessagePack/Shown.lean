import CertifiedCalls.Proofs.Codec.Induction
import CertifiedCalls.Proofs.Decimal.Width
import CertifiedCalls.Proofs.MessagePack.Reading

/-! # How long shown items are
The text that shows an item can be much longer than the item: a double takes nine octets and is
shown by up to 343. It is not 64 times as long (`utf8ByteSize_toText_le`), so the items of a message
of fewer than `2 ^ 26` octets are shown by fewer than `2 ^ 32`. -/

namespace CertifiedCalls.MessagePack

/-! ### Lists of texts -/

/-- Texts that are separated by commas take two octets more than the texts themselves. -/
theorem utf8ByteSize_intercalate_le (parts : List String) :
    (String.intercalate ", " parts).utf8ByteSize
      ≤ (parts.map fun part => part.utf8ByteSize + 2).sum := by
  induction parts with
  | nil => exact Nat.le_refl _
  | cons first rest ih =>
    cases rest with
    | nil =>
      rw [String.intercalate_singleton, List.map_singleton, List.sum_singleton]
      exact Nat.le_add_right _ _
    | cons second rest =>
      have comma : (", " : String).utf8ByteSize = 2 := by decide
      rw [String.intercalate_cons_cons, String.utf8ByteSize_append, String.utf8ByteSize_append,
        comma, List.map_cons, List.sum_cons]
      exact Nat.add_le_add_left ih _

namespace Item

/-- Texts in brackets. -/
theorem utf8ByteSize_bracketed_le (parts : List String) :
    (bracketed parts).utf8ByteSize ≤ (parts.map fun part => part.utf8ByteSize + 2).sum + 2 := by
  have inner := utf8ByteSize_intercalate_le parts
  have opening : ("[" : String).utf8ByteSize = 1 := by decide
  have closing : ("]" : String).utf8ByteSize = 1 := by decide
  rw [bracketed, String.utf8ByteSize_append, String.utf8ByteSize_append, opening, closing]
  omega

/-- Adding up what is no more than as many times as much. -/
theorem sum_map_le_mul_sum {α : Type} {factor : Nat} {shown size : α → Nat} {xs : List α}
    (each : ∀ x ∈ xs, shown x ≤ factor * size x) :
    (xs.map shown).sum ≤ factor * (xs.map size).sum := by
  induction xs with
  | nil => exact Nat.le_refl _
  | cons x xs ih =>
    rw [List.forall_mem_cons] at each
    rw [List.map_cons, List.sum_cons, List.map_cons, List.sum_cons, Nat.mul_add]
    exact Nat.add_le_add each.1 (ih each.2)

end Item

/-! ### Scalars -/

/-- A number of few digits is shown by few octets. -/
theorem utf8ByteSize_toString_nat_le (n digits : Nat) (positive : 0 < digits)
    (small : n < 10 ^ digits) : (toString n).utf8ByteSize ≤ digits := by
  show n.repr.utf8ByteSize ≤ digits
  rw [Nat.repr_eq_ofList_toDigits, utf8ByteSize_ofList_of_ascii fun _ => ascii_of_mem_toDigits]
  exact (Nat.length_toDigits_le_iff (by decide) positive).mpr small

/-- An integer of few digits is shown by few octets, one more for its sign. -/
theorem utf8ByteSize_toString_int_le (i : Int) (digits : Nat) (positive : 0 < digits)
    (small : i.natAbs < 10 ^ digits) : (toString i).utf8ByteSize ≤ digits + 1 := by
  cases i with
  | ofNat n => exact Nat.le_succ_of_le (utf8ByteSize_toString_nat_le n digits positive small)
  | negSucc n =>
    have shown := utf8ByteSize_toString_nat_le (n + 1) digits positive small
    have minus : ("-" : String).utf8ByteSize = 1 := by decide
    show ("-" ++ (n + 1).repr).utf8ByteSize ≤ digits + 1
    rw [String.utf8ByteSize_append, minus, Nat.add_comm]
    exact Nat.succ_le_succ shown

/-- A character is escaped by at most ten. -/
theorem length_escape_le (c : Char) : (Text.escape c).length ≤ 10 := by
  have point : c.toNat < 16 ^ 6 := by
    rcases c.valid with low | ⟨-, high⟩
    · exact Nat.lt_trans low (by decide)
    · exact Nat.lt_trans high (by decide)
  have digits : (Nat.toDigits 16 c.toNat).length ≤ 6 :=
    (Nat.length_toDigits_le_iff (by decide) (by decide)).mpr point
  have numeral : (['\\', 'u', '\x7b'] ++ Text.hexNumeral c.toNat ++ ['\x7d']).length ≤ 10 := by
    rw [List.length_append, List.length_append]
    exact Nat.add_le_add_right (Nat.add_le_add_left digits 3) 1
  rw [Text.escape]
  repeat' split
  all_goals first
    | exact numeral
    | exact Nat.le_of_ble_eq_true rfl

/-- A quoted text is no more than forty times as long, but for the quotes. -/
theorem utf8ByteSize_quoted_le (s : String) :
    (Text.quoted s).utf8ByteSize ≤ 40 * s.utf8ByteSize + 2 := by
  have inner (cs : List Char) : (String.ofList (cs.flatMap Text.escape)).utf8ByteSize
      ≤ 40 * (String.ofList cs).utf8ByteSize := by
    induction cs with
    | nil => exact Nat.le_refl _
    | cons c cs ih =>
      have escaped := Bytes.length_ofText_ofList_le (Text.escape c)
      have few := length_escape_le c
      have some := c.utf8Size_pos
      change (String.ofList (Text.escape c)).utf8ByteSize ≤ _ at escaped
      rw [List.flatMap_cons, String.ofList_append, String.utf8ByteSize_append, String.ofList_cons,
        String.utf8ByteSize_append, String.utf8ByteSize_singleton]
      omega
  have opening : (String.singleton '"').utf8ByteSize = 1 := by decide
  have closing : (String.ofList ['"']).utf8ByteSize = 1 := by decide
  have bound := inner s.toList
  rw [String.ofList_toList] at bound
  rw [Text.quoted, String.ofList_append, String.ofList_cons, String.utf8ByteSize_append,
    String.utf8ByteSize_append, opening, closing]
  omega

namespace Item

/-- Octets are shown by at most five each. -/
theorem utf8ByteSize_showOctets_le (octets : Bytes) :
    (showOctets octets).utf8ByteSize ≤ 5 * octets.length + 2 := by
  have each : ∀ b ∈ octets, (toString b.toNat).utf8ByteSize + 2 ≤ 5 * 1 := fun b _ =>
    Nat.add_le_add_right (utf8ByteSize_toString_nat_le b.toNat 3 (by decide)
      (Nat.lt_trans b.toNat_lt (by decide))) 2
  have sum := sum_map_le_mul_sum each
  rw [List.map_const', List.sum_replicate_nat, Nat.mul_one] at sum
  have brackets := utf8ByteSize_bracketed_le (octets.map fun b => toString b.toNat)
  rw [List.map_map] at brackets
  exact Nat.le_trans brackets (Nat.add_le_add_right sum 2)

/-- The texts of items one by one. -/
theorem toTexts_eq_map (items : List Item) : toTexts items = items.map toText := by
  induction items with
  | nil => rfl
  | cons item rest ih => rw [toTexts, ih, List.map_cons]

/-- The texts of entries one by one. -/
theorem entryTexts_eq_map (entries : List (Item × Item)) :
    entryTexts entries = entries.map fun entry => entry.1.toText ++ ": " ++ entry.2.toText := by
  induction entries with
  | nil => rfl
  | cons entry rest ih => rw [entryTexts, ih, List.map_cons]

/-- **Shown items**: the text that shows an item is less than 64 times as long. -/
theorem utf8ByteSize_toText_le {item : Item} (fits : item.Fits) :
    item.toText.utf8ByteSize + 4 ≤ 64 * item.size := by
  -- Each item leaves four octets over, of which the list that it stands in takes its separators.
  induction item with
  | nil => exact (by decide : "nil".utf8ByteSize + 4 ≤ 64 * 1)
  | bool b => cases b <;> decide
  | int i =>
    obtain ⟨low, high⟩ := fits
    have shown := utf8ByteSize_toString_int_le i 20 (by decide) (by omega)
    show (toString i).utf8ByteSize + 4 ≤ 64 * 1
    omega
  | single x =>
    have shown := x.utf8ByteSize_toText_le
    rw [toText, size]
    omega
  | double x =>
    have shown := x.utf8ByteSize_toText_le
    rw [toText, size]
    omega
  | text s =>
    have shown := utf8ByteSize_quoted_le s
    rw [toText, size]
    show (Text.quoted s).utf8ByteSize + 4 ≤ 64 * (s.utf8ByteSize + 1)
    omega
  | brokenText octets =>
    have shown := utf8ByteSize_showOctets_le octets
    rw [toText, size]
    omega
  | binary octets =>
    have shown := utf8ByteSize_showOctets_le octets
    rw [toText, size]
    omega
  | ext type octets =>
    obtain ⟨low, high⟩ := fits.1
    have type_shown := utf8ByteSize_toString_int_le type 3 (by decide) (by omega)
    have shown := utf8ByteSize_showOctets_le octets
    have brackets := utf8ByteSize_bracketed_le [toString type, showOctets octets]
    simp only [List.map_cons, List.map_nil, List.sum_cons, List.sum_nil] at brackets
    rw [toText, size]
    omega
  | array items ih =>
    have each : ∀ item ∈ items, item.toText.utf8ByteSize + 2 ≤ 64 * item.size := fun item mem =>
      Nat.le_trans (Nat.add_le_add_left (by decide) _) (ih item mem (allFit_iff.mp fits.2 item mem))
    have sum := sum_map_le_mul_sum each
    have brackets := utf8ByteSize_bracketed_le (items.map toText)
    rw [List.map_map] at brackets
    rw [toText, toTexts_eq_map, size, sizeOfItems_eq_sum]
    have all : (bracketed (items.map toText)).utf8ByteSize ≤ 64 * (items.map size).sum + 2 :=
      Nat.le_trans brackets (Nat.add_le_add_right sum 2)
    omega
  | map entries ih =>
    have colon : (": " : String).utf8ByteSize = 2 := by decide
    have each : ∀ entry ∈ entries,
        (entry.1.toText ++ ": " ++ entry.2.toText).utf8ByteSize + 2
          ≤ 64 * (entry.1.size + entry.2.size) := fun entry mem => by
      obtain ⟨key_fits, value_fits⟩ := entriesFit_iff.mp fits.2 entry mem
      have key := (ih entry mem).1 key_fits
      have value := (ih entry mem).2 value_fits
      rw [String.utf8ByteSize_append, String.utf8ByteSize_append, colon]
      omega
    have sum := sum_map_le_mul_sum each
    have inner := utf8ByteSize_intercalate_le (entryTexts entries)
    rw [entryTexts_eq_map, List.map_map] at inner
    have opening : ("\x7b" : String).utf8ByteSize = 1 := by decide
    have closing : ("\x7d" : String).utf8ByteSize = 1 := by decide
    have all := Nat.le_trans inner sum
    rw [toText, size, sizeOfEntries_eq_sum, String.utf8ByteSize_append, String.utf8ByteSize_append,
      opening, closing, entryTexts_eq_map]
    omega

end Item

end CertifiedCalls.MessagePack
