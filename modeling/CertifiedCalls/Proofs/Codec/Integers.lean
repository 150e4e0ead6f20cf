import CertifiedCalls.Proofs.Codec.RoundTrip
import CertifiedCalls.Proofs.Decimal.WholeNumbers
import CertifiedCalls.Proofs.MessagePack.Reading

/-! # Integers where a number is wanted
A reply may carry an integer where its schema wants a double. The integer is then conformed to the
nearest double, so it is kept as it is when 53 bits hold it. Integers that take more bits can come to
the same double as others (`decode_float_integers`), and some do (`decode_float_collision`). -/

namespace CertifiedCalls.Schema

open Binary64 (ofInt rounded)
open MessagePack (Item)

/-- An integer of 64 bits is conformed to the nearest double. -/
theorem conform_float_ofItem {a : Int} (low : -9223372036854775808 ≤ a) :
    conform .float (Value.ofItem (.int a)) = .float (ofInt a) := by
  rw [Value.ofItem]
  by_cases nonneg : 0 ≤ a
  · have magnitude : a.toNat = a.natAbs := by omega
    have positive : ¬ a < 0 := by omega
    rw [if_pos nonneg, conform, Binary64.ofNat, Binary64.ofInt, magnitude]
    simp [positive]
  · have kept : (Int64.ofInt a).toInt = a := Int64.toInt_ofInt_of_le low (by omega)
    rw [if_neg nonneg, conform, kept]

/-- A message that holds an integer is decoded to the nearest double. -/
theorem decode_float {a : Int} {octets : Bytes} (told : Item.read octets = .ok (.int a, [])) :
    Schema.float.decode octets = .ok (.float (ofInt a)) := by
  obtain ⟨low, -⟩ := Item.fits_of_read told
  exact decode_eq_ok_iff.mpr ⟨.int a, told, conform_float_ofItem low, rfl⟩

/-- **Integers of 53 bits are kept apart.** An integer is decoded to the double that has its sign and
the magnitude that its own is rounded to, which is its own when 53 bits hold it. Two integers are
decoded alike when they are the same, and otherwise only when neither has less than 54 bits and both
are rounded to the same number. -/
theorem decode_float_integers {a b : Int} {octets others : Bytes}
    (first : Item.read octets = .ok (.int a, [])) (second : Item.read others = .ok (.int b, [])) :
    (∃ x m e, Schema.float.decode octets = .ok (.float x) ∧ x.value = .finite (a < 0) m e ∧
      (m : ℚ) * 2 ^ e = rounded a.natAbs) ∧
    (a.natAbs < 2 ^ 53 → rounded a.natAbs = a.natAbs) ∧
    (Schema.float.decode octets = Schema.float.decode others ↔ a = b ∨
      (2 ^ 53 ≤ a ∧ 2 ^ 53 ≤ b ∨ a ≤ -2 ^ 53 ∧ b ≤ -2 ^ 53) ∧
        rounded a.natAbs = rounded b.natAbs) := by
  obtain ⟨a_low, a_high⟩ := Item.fits_of_read first
  obtain ⟨b_low, b_high⟩ := Item.fits_of_read second
  have a_small : a.natAbs < 2 ^ 64 := by omega
  have b_small : b.natAbs < 2 ^ 64 := by omega
  refine ⟨?_, Binary64.rounded_of_lt, ?_⟩
  · obtain ⟨m, e, means, magnitude⟩ := Binary64.value_ofInt a_small
    exact ⟨ofInt a, m, e, decode_float first, means, magnitude⟩
  · have alike : Schema.float.decode octets = Schema.float.decode others ↔ ofInt a = ofInt b := by
      rw [decode_float first, decode_float second, Except.ok.injEq, Value.float.injEq]
    rw [alike, Binary64.ofInt_eq_ofInt_iff a_small b_small]
    constructor
    · rintro ⟨signs, same⟩
      rcases Binary64.large_of_rounded_eq same with equal | large
      · exact .inl (by omega)
      · exact .inr ⟨by omega, same⟩
    · rintro (rfl | ⟨large, same⟩)
      · simp
      · exact ⟨by omega, same⟩

/-- The two integers before the first one that is lost. -/
theorem decode_float_integers_neighbours :
    Item.read [0xCF, 0x00, 0x1F, 0xFF, 0xFF, 0xFF, 0xFF, 0xFF, 0xFF]
        = .ok (.int 9007199254740991, []) ∧
      Item.read [0xCF, 0x00, 0x20, 0x00, 0x00, 0x00, 0x00, 0x00, 0x00]
        = .ok (.int 9007199254740992, []) ∧
      Schema.float.decode [0xCF, 0x00, 0x1F, 0xFF, 0xFF, 0xFF, 0xFF, 0xFF, 0xFF]
        ≠ Schema.float.decode [0xCF, 0x00, 0x20, 0x00, 0x00, 0x00, 0x00, 0x00, 0x00] := by
  have first : Item.read [0xCF, 0x00, 0x1F, 0xFF, 0xFF, 0xFF, 0xFF, 0xFF, 0xFF]
      = .ok (.int 9007199254740991, []) := by cbv
  have second : Item.read [0xCF, 0x00, 0x20, 0x00, 0x00, 0x00, 0x00, 0x00, 0x00]
      = .ok (.int 9007199254740992, []) := by cbv
  obtain ⟨-, -, alike⟩ := decode_float_integers first second
  refine ⟨first, second, fun same => ?_⟩
  have := alike.mp same
  omega

/-- **Two integers come to the same double**: `2 ^ 53` and the next one, which is the first that takes
54 bits, are decoded alike, without a complaint. -/
theorem decode_float_collision :
    Item.read [0xCF, 0x00, 0x20, 0x00, 0x00, 0x00, 0x00, 0x00, 0x00]
        = .ok (.int 9007199254740992, []) ∧
      Item.read [0xCF, 0x00, 0x20, 0x00, 0x00, 0x00, 0x00, 0x00, 0x01]
        = .ok (.int 9007199254740993, []) ∧
      Schema.float.decode [0xCF, 0x00, 0x20, 0x00, 0x00, 0x00, 0x00, 0x00, 0x00]
        = .ok (.float ⟨0x4340000000000000⟩) ∧
      Schema.float.decode [0xCF, 0x00, 0x20, 0x00, 0x00, 0x00, 0x00, 0x00, 0x01]
        = .ok (.float ⟨0x4340000000000000⟩) := by
  have first : Item.read [0xCF, 0x00, 0x20, 0x00, 0x00, 0x00, 0x00, 0x00, 0x00]
      = .ok (.int 9007199254740992, []) := by cbv
  have second : Item.read [0xCF, 0x00, 0x20, 0x00, 0x00, 0x00, 0x00, 0x00, 0x01]
      = .ok (.int 9007199254740993, []) := by cbv
  have exact : ofInt 9007199254740992 = ⟨0x4340000000000000⟩ := by decide
  have rounds : ofInt 9007199254740993 = ⟨0x4340000000000000⟩ := by decide
  refine ⟨first, second, ?_, ?_⟩
  · rw [decode_float first, exact]
  · rw [decode_float second, rounds]

end CertifiedCalls.Schema
