import CertifiedCalls.Canister.Id
import CertifiedCalls.Proofs.Canister.Base32
import Mathlib

/-! # Texts of canister identifiers
A text is understood as an identifier exactly when it is, but for its case, the text of that identifier
(`text_canonical`). What is wrong with any other text can be told from its **letters**: they write no
octets at all, or too few or too many of them, or a checksum of other octets, or they are grouped
otherwise (`Verdict`). -/

namespace CertifiedCalls

/-! ### Groups -/

/-- The first five characters of more than five are a group of their own. -/
theorem dashed_of_long {cs : List Char} (long : 5 < cs.length) :
    dashed cs = cs.take 5 ++ '-' :: dashed (cs.drop 5) := by
  rw [dashed, dif_pos long]

/-- Five characters are one group. -/
theorem dashed_of_short {cs : List Char} (short : ¬ 5 < cs.length) : dashed cs = cs := by
  rw [dashed, dif_neg short]

/-- Characters can be changed before they are grouped, if dashes stay. -/
theorem map_dashed {f : Char → Char} (dash : f '-' = '-') (cs : List Char) :
    (dashed cs).map f = dashed (cs.map f) := by
  induction cs using dashed.induct with
  | case1 cs long ih =>
    have long' : 5 < (cs.map f).length := by rwa [List.length_map]
    rw [dashed_of_long long, dashed_of_long long', List.map_append, List.map_take, List.map_cons,
      dash, ih, List.map_drop]
  | case2 cs short =>
    rw [dashed_of_short short, dashed_of_short (by rwa [List.length_map])]

/-- Without its dashes a text is what was grouped. -/
theorem filter_dashed {cs : List Char} (plain : ∀ c ∈ cs, c ≠ '-') :
    (dashed cs).filter (· ≠ '-') = cs := by
  induction cs using dashed.induct with
  | case1 cs long ih =>
    have front : (cs.take 5).filter (· ≠ '-') = cs.take 5 :=
      List.filter_eq_self.mpr fun c mem => decide_eq_true (plain c (List.mem_of_mem_take mem))
    rw [dashed_of_long long, List.filter_append, front, List.filter_cons_of_neg (by decide),
      ih fun c mem => plain c (List.mem_of_mem_drop mem), List.take_append_drop]
  | case2 cs short =>
    rw [dashed_of_short short]
    exact List.filter_eq_self.mpr fun c mem => decide_eq_true (plain c mem)

namespace CanisterId

/-! ### Letters -/

/-- The **letters** of a text: its characters in upper case, without dashes. -/
def letters (s : String) : List Char := (s.toList.map Char.toUpper).filter (· ≠ '-')

/-- The **written** form of octets: their checksum and themselves in upper-case digits. -/
def written (bs : Bytes) : List Char := Base32.encode (checksum bs ++ bs)

/-- A checksum takes four octets. -/
@[simp] theorem length_checksum (bs : Bytes) : (checksum bs).length = 4 :=
  Bytes.length_bigEndian ..

/-- Octets are written in one way. -/
theorem written_injective : Function.Injective written := by
  intro a b same
  have octets : checksum a ++ a = checksum b ++ b := Base32.encode_injective same
  have lengths : (checksum a).length = (checksum b).length := by simp
  exact (List.append_inj octets lengths).2

/-- Lower-case digits are made upper-case again. -/
theorem map_toUpper_toLower_written (bs : Bytes) :
    ((written bs).map Char.toLower).map Char.toUpper = written bs := by
  have back : ∀ c ∈ written bs, c.toLower.toUpper = c := by
    apply Base32.forall_mem_encode
    decide
  rw [List.map_map]
  exact (List.map_congr_left back).trans (List.map_id _)

/-- The letters of the text of octets are what the octets are written as. -/
theorem letters_ofList_textOf (bs : Bytes) : letters (String.ofList (textOf bs)) = written bs := by
  have plain : ∀ c ∈ written bs, c ≠ '-' := by
    apply Base32.forall_mem_encode
    decide
  rw [letters, String.toList_ofList, textOf, map_dashed (by decide), ← written,
    map_toUpper_toLower_written, filter_dashed plain]

/-- Texts that differ in case only have the same letters. -/
theorem letters_toLower (s : String) : letters s.toLower = letters s := by
  have upper : Char.toUpper ∘ Char.toLower = Char.toUpper :=
    funext Char.toUpper_toLower_eq_toUpper
  rw [letters, String.toLower, String.toList_map, List.map_map, upper, ← letters]

/-- The letters of the text of an identifier are what its octets are written as. -/
theorem letters_toText (id : CanisterId) : letters id.toText = written id.bytes :=
  letters_ofList_textOf id.bytes

/-- A text of an identifier is in lower case. -/
theorem toLower_toText (id : CanisterId) : id.toText.toLower = id.toText := by
  have lower : Char.toLower ∘ Char.toLower = Char.toLower :=
    funext Char.toLower_toLower_eq_toLower
  rw [toText, String.toLower, ← String.toList_inj, String.toList_map, String.toList_ofList, textOf,
    map_dashed (by decide), List.map_map, lower]

/-- Identifiers of the same octets are the same. -/
theorem bytes_injective : Function.Injective bytes := by
  rintro ⟨as, _⟩ ⟨bs, _⟩ rfl
  rfl

/-- No two identifiers share a text. -/
theorem toText_injective : Function.Injective toText := by
  intro a b same
  apply bytes_injective
  apply written_injective
  rw [← letters_toText, ← letters_toText, same]

/-! ### Verdicts -/

/-- The **verdict** on a text, by what its letters write. -/
inductive Verdict (s : String) : Except CanisterIdError CanisterId → Prop
  /-- The letters write nothing: some are no digits, or there are too many of them, or bits are left
  over that are not zero. -/
  | unwritten (nothing : ∀ bs, Base32.encode bs ≠ letters s) : Verdict s (.error .invalidEncoding)
  /-- They write less than a checksum. -/
  | tooShort {bs : Bytes} (spelt : Base32.encode bs = letters s) (short : bs.length < 4) :
    Verdict s (.error .tooShort)
  /-- They write more than an identifier. -/
  | tooLong {sum body : Bytes} (spelt : Base32.encode (sum ++ body) = letters s)
    (four : sum.length = 4) (long : 29 < body.length) : Verdict s (.error .textTooLong)
  /-- They write the checksum of other octets. -/
  | damaged {sum body : Bytes} (spelt : Base32.encode (sum ++ body) = letters s)
    (four : sum.length = 4) (short : body.length ≤ 29) (other : sum ≠ checksum body) :
    Verdict s (.error .checksumMismatch)
  /-- They are those of an identifier, and the text is not. -/
  | regrouped {id : CanisterId} (spelt : letters s = written id.bytes)
    (other : s.toLower ≠ id.toText) : Verdict s (.error (.notCanonical id.toText))
  /-- The text is that of an identifier, but for its case. -/
  | canonical {id : CanisterId} (same : s.toLower = id.toText) : Verdict s (.ok id)

/-- A text in lower case is compared as a list of characters. -/
theorem map_toLower_eq_textOf_iff {s : String} {id : CanisterId} :
    s.toList.map Char.toLower = textOf id.bytes ↔ s.toLower = id.toText := by
  rw [← String.toList_inj, String.toLower, String.toList_map, toText, String.toList_ofList]

/-- Letters that write nothing are refused. -/
theorem ofText_of_unwritten {s : String} (nothing : ∀ bs, Base32.encode bs ≠ letters s) :
    ofText s = .error .invalidEncoding := by
  have unread : Base32.decode? (letters s) = none := by
    apply Option.eq_none_iff_forall_ne_some.mpr
    intro bs read
    exact nothing bs (Base32.decode?_eq_some_iff.mp read)
  rw [ofText, ← letters, unread]
  rfl

/-- Letters that write less than a checksum are refused. -/
theorem ofText_of_short {s : String} {bs : Bytes} (spelt : Base32.encode bs = letters s)
    (short : bs.length < 4) : ofText s = .error .tooShort := by
  rw [ofText, ← letters, Base32.decode?_eq_some_iff.mpr spelt, Option.elim_some, pure_bind,
    Bytes.splitAt?_eq_none_iff.mpr short]
  rfl

/-- Letters that write a checksum and octets are judged by both, and then the text by its groups. -/
theorem ofText_of_parts {s : String} {sum body : Bytes}
    (spelt : Base32.encode (sum ++ body) = letters s) (four : sum.length = 4) :
    ofText s =
      if short : body.length ≤ 29 then
        if sum = checksum body then
          if s.toLower = toText ⟨body, short⟩ then .ok ⟨body, short⟩
          else .error (.notCanonical (toText ⟨body, short⟩))
        else .error .checksumMismatch
      else .error .textTooLong := by
  have split := Bytes.splitAt?_append sum body
  rw [four] at split
  rw [ofText, ← letters, Base32.decode?_eq_some_iff.mpr spelt, Option.elim_some, pure_bind, split]
  dsimp only
  split
  · rename_i short
    simp only [← map_toLower_eq_textOf_iff]
    by_cases right : sum = checksum body
    · rw [if_neg (not_not_intro right), if_pos right]
      by_cases same : s.toList.map Char.toLower = textOf body
      · rw [if_neg (not_not_intro same), if_pos same]
        rfl
      · rw [if_pos same, if_neg same]
        rfl
    · rw [if_pos right, if_neg right]
      rfl
  · rfl

/-- A text gets the verdict on it. -/
theorem verdict_ofText (s : String) : Verdict s (ofText s) := by
  by_cases nothing : ∀ bs, Base32.encode bs ≠ letters s
  · rw [ofText_of_unwritten nothing]
    exact .unwritten nothing
  · obtain ⟨bs, spelt⟩ := not_forall_not.mp nothing
    cases split : bs.splitAt? 4 with
    | none =>
      have short := Bytes.splitAt?_eq_none_iff.mp split
      rw [ofText_of_short spelt short]
      exact .tooShort spelt short
    | some parts =>
      obtain ⟨sum, body⟩ := parts
      obtain ⟨rfl, four⟩ := Bytes.eq_of_splitAt?_eq_some split
      rw [ofText_of_parts spelt four]
      split
      · rename_i short
        split
        · rename_i same
          split
          · rename_i canonical
            exact .canonical canonical
          · rename_i other
            exact .regrouped (spelt.symm.trans (by rw [same, written])) other
        · rename_i other
          exact .damaged spelt four short other
      · rename_i long
        exact .tooLong spelt four (Nat.lt_of_not_le long)

/-- There is one verdict on a text, and it is the one that the text gets. -/
theorem ofText_eq_iff {s : String} {r : Except CanisterIdError CanisterId} :
    ofText s = r ↔ Verdict s r := by
  constructor
  · rintro rfl
    exact verdict_ofText s
  · intro verdict
    cases verdict with
    | unwritten nothing => exact ofText_of_unwritten nothing
    | tooShort spelt short => exact ofText_of_short spelt short
    | tooLong spelt four long =>
      rw [ofText_of_parts spelt four, dif_neg (Nat.not_le_of_lt long)]
    | damaged spelt four short other =>
      rw [ofText_of_parts spelt four, dif_pos short, if_neg other]
    | @regrouped id spelt other =>
      rw [ofText_of_parts spelt.symm (length_checksum _), dif_pos id.length_le, if_pos rfl,
        if_neg other]
    | @canonical id same =>
      have spelt : written id.bytes = letters s := by
        rw [← letters_toLower, same, letters_toText]
      rw [ofText_of_parts spelt (length_checksum _), dif_pos id.length_le, if_pos rfl, if_pos same]

/-- A text is understood as an identifier when it is, but for its case, the text of it. -/
theorem ofText_eq_ok_iff {s : String} {id : CanisterId} :
    ofText s = .ok id ↔ s.toLower = id.toText := by
  rw [ofText_eq_iff]
  constructor
  · intro verdict
    cases verdict
    assumption
  · exact .canonical

/-- Octets are those of an identifier when there are not too many of them. -/
theorem exists_ofBytes_iff (bs : Bytes) : (∃ id, ofBytes bs = .ok id) ↔ bs.length ≤ 29 := by
  constructor
  · rintro ⟨id, made⟩
    by_contra many
    rw [ofBytes, dif_neg many] at made
    cases made
  · intro few
    exact ⟨⟨bs, few⟩, dif_pos few⟩

/-- The identifier of octets has these octets. -/
theorem bytes_of_ofBytes {bs : Bytes} {id : CanisterId} (made : ofBytes bs = .ok id) :
    id.bytes = bs := by
  rw [ofBytes] at made
  split at made
  · obtain rfl := Except.ok.inj made
    rfl
  · cases made

/-- **Reading with more leniency does not help.** Where a reader of letters that reads whatever is
written finds the octets of an identifier, the text is that of the identifier or of none. -/
theorem ofText_ne_ok_of_lenient {lenient : List Char → Option Bytes}
    (reads : ∀ bs, lenient (Base32.encode bs) = some bs) {s : String} {id : CanisterId}
    (found : lenient (letters s) = some (checksum id.bytes ++ id.bytes))
    (ne : s.toLower ≠ id.toText) (other : CanisterId) : ofText s ≠ .ok other := by
  intro accepted
  have same := ofText_eq_ok_iff.mp accepted
  rw [← letters_toLower, same, letters_toText, written, reads] at found
  have octets : other.bytes = id.bytes :=
    written_injective (congrArg Base32.encode (Option.some.inj found))
  exact ne (bytes_injective octets ▸ same)

/-- **A text of an identifier is canonical**. Octets are those of an identifier when there are at most
twenty-nine of them, and the text of the identifier is then understood as it. A text is understood as
an identifier just when it is, but for its case, the text of it, and no two identifiers share a text.
A text is not understood because its letters could be read with more leniency, and any other text gets
the verdict that its letters and its groups call for. -/
theorem text_canonical :
    (∀ bs, (∃ id, ofBytes bs = .ok id) ↔ bs.length ≤ 29) ∧
    (∀ bs id, ofBytes bs = .ok id → id.bytes = bs ∧ ofText id.toText = .ok id) ∧
    (∀ (s : String) (id : CanisterId), ofText s = .ok id ↔ s.toLower = id.toText) ∧
    Function.Injective toText ∧
    (∀ lenient : List Char → Option Bytes, (∀ bs, lenient (Base32.encode bs) = some bs) →
      ∀ (s : String) (id : CanisterId),
        lenient (letters s) = some (checksum id.bytes ++ id.bytes) → s.toLower ≠ id.toText →
          ∀ other, ofText s ≠ .ok other) ∧
    ∀ (s : String) (r : Except CanisterIdError CanisterId), ofText s = r ↔ Verdict s r := by
  refine ⟨exists_ofBytes_iff, ?_, ?_, toText_injective, ?_, ?_⟩
  · intro bs id made
    exact ⟨bytes_of_ofBytes made, ofText_eq_ok_iff.mpr (toLower_toText id)⟩
  · intro s id
    exact ofText_eq_ok_iff
  · intro lenient reads s id found ne
    exact ofText_ne_ok_of_lenient reads found ne
  · intro s r
    exact ofText_eq_iff

/-- A text that is understood in upper case, and not without its dashes or with a last letter whose
surplus bits are not zero. -/
theorem text_canonical_upper_case :
    let id : CanisterId := ⟨[0, 0, 0, 0, 0, 0, 0, 1, 1, 1], by decide⟩
    ofBytes id.bytes = .ok id ∧ ofText id.toText = .ok id ∧
      ofText "RRKAH-FQAAA-AAAAA-AAAAQ-CAI" = .ok id ∧
      ofText "rrkahfqaaaaaaaaaaaaqcai" = .error (.notCanonical id.toText) ∧
      ofText "rrkah-fqaaa-aaaaa-aaaaq-caj" = .error .invalidEncoding := by
  intro id
  have made : ofBytes id.bytes = .ok id := ofBytes_bytes id
  have sum : checksum id.bytes = [0x8C, 0x54, 0x03, 0x96] := by decide +kernel
  have same : "RRKAH-FQAAA-AAAAA-AAAAQ-CAI".toList.map Char.toLower = textOf id.bytes := by
    rw [textOf, sum]
    cbv
  have spelt : letters "rrkahfqaaaaaaaaaaaaqcai" = written id.bytes := by
    rw [written, sum]
    cbv
  have undashed : "rrkahfqaaaaaaaaaaaaqcai".toList.map Char.toLower ≠ textOf id.bytes := by
    rw [← same]
    decide
  have unread : Base32.decode? (letters "rrkah-fqaaa-aaaaa-aaaaq-caj") = none := by cbv
  obtain ⟨-, back, understood, -, -, verdict⟩ := text_canonical
  refine ⟨made, (back _ id made).2, (understood _ id).mpr (map_toLower_eq_textOf_iff.mp same),
    (verdict _ _).mpr (.regrouped spelt fun e => undashed (map_toLower_eq_textOf_iff.mpr e)),
    (verdict _ _).mpr (.unwritten fun bs spelt => ?_)⟩
  rw [Base32.decode?_eq_some_iff.mpr spelt] at unread
  cases unread

end CanisterId

end CertifiedCalls
