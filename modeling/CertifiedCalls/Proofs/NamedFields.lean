import CertifiedCalls.Fields

/-! # Laws of named fields
Fields in order are determined by what they say of each name (`Ordered.ext`). Gathering pairs into
fields always gives fields in order, and where no name is repeated it says of each name what the
pairs say (`get?_ofList`), so fields in order are gathered into themselves (`ofList_of_ordered`). -/

namespace CertifiedCalls.Fields

variable {α β : Type}

/-- The **names** of pairs, in order. -/
def names (pairs : List (String × α)) : List String := pairs.map Prod.fst

@[simp] theorem names_cons (name : String) (x : α) (rest : List (String × α)) :
    names ((name, x) :: rest) = name :: names rest := rfl

/-- Looking up the first of the pairs, or one of the rest. -/
theorem get?_cons (name key : String) (x : α) (rest : Fields α) :
    get? name ((key, x) :: rest) = if key = name then some x else get? name rest := rfl

/-- A name that no pair has is not found. -/
theorem get?_eq_none_of_not_mem {name : String} {pairs : Fields α} (h : name ∉ names pairs) :
    get? name pairs = none := by
  induction pairs with
  | nil => rfl
  | cons pair rest ih =>
    obtain ⟨key, x⟩ := pair
    rw [names_cons, List.mem_cons, not_or] at h
    rw [get?_cons, if_neg (fun e => h.1 e.symm), ih h.2]

/-- A name that is not found is that of no pair. -/
theorem not_mem_names_of_get?_eq_none {name : String} {pairs : Fields α}
    (h : get? name pairs = none) : name ∉ names pairs := by
  induction pairs with
  | nil => exact List.not_mem_nil
  | cons pair rest ih =>
    obtain ⟨key, x⟩ := pair
    rw [get?_cons] at h
    split at h
    · cases h
    · rename_i ne
      rw [names_cons, List.mem_cons, not_or]
      exact ⟨fun e => ne e.symm, ih h⟩

/-- What is found under a name is among the pairs. -/
theorem mem_of_get?_eq_some {name : String} {x : α} {pairs : Fields α}
    (h : get? name pairs = some x) : (name, x) ∈ pairs := by
  induction pairs with
  | nil => simp at h
  | cons pair rest ih =>
    obtain ⟨key, y⟩ := pair
    rw [get?_cons] at h
    split at h
    · rename_i e
      obtain rfl := Option.some.inj h
      rw [e]
      exact List.mem_cons_self
    · exact List.mem_cons_of_mem _ (ih h)

/-- Where no name is repeated, each pair is found under its name. -/
theorem get?_eq_some_of_mem {name : String} {x : α} {pairs : Fields α}
    (distinct : (names pairs).Nodup) (h : (name, x) ∈ pairs) : get? name pairs = some x := by
  induction pairs with
  | nil => simp at h
  | cons pair rest ih =>
    obtain ⟨key, y⟩ := pair
    rw [names_cons, List.nodup_cons] at distinct
    rw [get?_cons]
    rcases List.mem_cons.mp h with e | later
    · obtain ⟨rfl, rfl⟩ := Prod.mk.inj e
      rw [if_pos rfl]
    · have other : key ≠ name := by
        rintro rfl
        exact distinct.1 (List.mem_map_of_mem later)
      rw [if_neg other, ih distinct.2 later]

/-! ### Order -/

/-- Fields in order: the first name comes before all others, which are in order. -/
theorem ordered_cons {name : String} {x : α} {rest : Fields α} :
    Ordered ((name, x) :: rest) ↔ (∀ pair ∈ rest, name < pair.1) ∧ Ordered rest :=
  List.pairwise_cons

/-- The names of fields in order are distinct. -/
theorem Ordered.nodup_names {fields : Fields α} (h : Ordered fields) : (names fields).Nodup := by
  rw [names, List.nodup_iff_pairwise_ne, List.pairwise_map]
  exact h.imp fun lt => String.ne_of_lt lt

/-- No pair is repeated in fields in order. -/
theorem Ordered.nodup {fields : Fields α} (h : Ordered fields) : fields.Nodup := by
  rw [List.nodup_iff_pairwise_ne]
  exact h.imp fun lt eq => String.ne_of_lt lt (congrArg Prod.fst eq)

/-- Of two distinct names one comes first. -/
theorem lt_of_not_lt_of_ne {a b : String} (not_lt : ¬ a < b) (ne : a ≠ b) : b < a := by
  apply String.not_le.mp
  intro le
  exact ne (String.le_antisymm le (String.not_lt.mp not_lt))

/-- Every pair after a setting is the one that was set or was there before. -/
theorem mem_of_mem_insert {name : String} {x : α} {fields : Fields α} {pair : String × α}
    (h : pair ∈ insert name x fields) : pair = (name, x) ∨ pair ∈ fields := by
  induction fields with
  | nil => simpa [insert] using h
  | cons first rest ih =>
    obtain ⟨key, y⟩ := first
    simp only [insert] at h
    split at h
    · simpa using h
    · split at h
      · rcases List.mem_cons.mp h with e | later
        · exact .inl e
        · exact .inr (List.mem_cons_of_mem _ later)
      · rcases List.mem_cons.mp h with e | later
        · exact .inr (e ▸ List.mem_cons_self)
        · exact (ih later).imp_right (List.mem_cons_of_mem _)

/-- Setting a name keeps fields in order. -/
theorem ordered_insert {fields : Fields α} (h : Ordered fields) (name : String) (x : α) :
    Ordered (insert name x fields) := by
  induction fields with
  | nil => exact List.pairwise_singleton ..
  | cons first rest ih =>
    obtain ⟨key, y⟩ := first
    obtain ⟨least, rest_ordered⟩ := ordered_cons.mp h
    simp only [insert]
    split
    · rename_i lt
      refine ordered_cons.mpr ⟨fun pair mem => ?_, h⟩
      rcases List.mem_cons.mp mem with rfl | later
      · exact lt
      -- The new name comes before the old first one, which comes before all others.
      · exact String.lt_trans lt (least pair later)
    · rename_i not_lt
      split
      · rename_i eq
        exact ordered_cons.mpr ⟨eq ▸ least, rest_ordered⟩
      · rename_i ne
        refine ordered_cons.mpr ⟨fun pair mem => ?_, ih rest_ordered⟩
        rcases mem_of_mem_insert mem with rfl | before
        · exact lt_of_not_lt_of_ne not_lt ne
        · exact least pair before

/-- Gathering pairs one by one keeps fields in order. -/
theorem ordered_foldl_insert (pairs : List (String × α)) {fields : Fields α} (h : Ordered fields) :
    Ordered (pairs.foldl (fun fields pair => insert pair.1 pair.2 fields) fields) := by
  induction pairs generalizing fields with
  | nil => exact h
  | cons pair rest ih => exact ih (ordered_insert h pair.1 pair.2)

/-- Gathered fields are in order. -/
theorem ordered_ofList (pairs : List (String × α)) : Ordered (ofList pairs) :=
  ordered_foldl_insert pairs ordered_nil

/-- Fields in order that say the same of every name are the same. -/
theorem Ordered.ext {a b : Fields α} (ha : Ordered a) (hb : Ordered b)
    (same : ∀ name, get? name a = get? name b) : a = b := by
  -- The two have the same pairs, so they are permutations of each other, and order leaves only one.
  have mem_iff (pair : String × α) : pair ∈ a ↔ pair ∈ b := by
    constructor
    · intro mem
      apply mem_of_get?_eq_some
      rw [← same, get?_eq_some_of_mem ha.nodup_names mem]
    · intro mem
      apply mem_of_get?_eq_some
      rw [same, get?_eq_some_of_mem hb.nodup_names mem]
  have perm : a.Perm b := (List.perm_ext_iff_of_nodup ha.nodup hb.nodup).mpr mem_iff
  exact perm.eq_of_pairwise (fun _ _ _ _ lt gt => absurd gt (String.lt_asymm lt)) ha hb

/-! ### Gathering -/

/-- The **last** thing of a name among pairs. -/
def last? (name : String) : List (String × α) → Option α
  | [] => none
  | (key, x) :: rest => (last? name rest).or (if key = name then some x else none)

/-- The last thing of a name is among the pairs. -/
theorem mem_of_last?_eq_some {name : String} {x : α} {pairs : List (String × α)}
    (h : last? name pairs = some x) : (name, x) ∈ pairs := by
  induction pairs with
  | nil => cases h
  | cons pair rest ih =>
    obtain ⟨key, y⟩ := pair
    rw [last?, Option.or_eq_some_iff] at h
    rcases h with later | ⟨-, here⟩
    · exact List.mem_cons_of_mem _ (ih later)
    · split at here
      · rename_i e
        obtain rfl := Option.some.inj here
        rw [e]
        exact List.mem_cons_self
      · cases here

/-- A name that no pair has has no last thing. -/
theorem last?_eq_none_of_not_mem {name : String} {pairs : List (String × α)}
    (h : name ∉ names pairs) : last? name pairs = none := by
  cases found : last? name pairs with
  | none => rfl
  | some x => exact absurd (List.mem_map_of_mem (mem_of_last?_eq_some found)) h

/-- Where no name is repeated, the last thing of a name is the only one. -/
theorem last?_eq_get? {pairs : List (String × α)} (distinct : (names pairs).Nodup) (name : String) :
    last? name pairs = get? name pairs := by
  induction pairs with
  | nil => rfl
  | cons pair rest ih =>
    obtain ⟨key, x⟩ := pair
    rw [names_cons, List.nodup_cons] at distinct
    rw [last?, get?_cons]
    split
    · rename_i e
      rw [last?_eq_none_of_not_mem (e ▸ distinct.1), Option.none_or]
    · rw [ih distinct.2, Option.or_none]

/-- The last thing of a name after all things have been changed. -/
theorem last?_map (f : α → β) (name : String) (pairs : List (String × α)) :
    last? name (pairs.map fun pair => (pair.1, f pair.2)) = (last? name pairs).map f := by
  induction pairs with
  | nil => rfl
  | cons pair rest ih =>
    rw [List.map_cons, last?, last?, ih, Option.map_or]
    split <;> rfl

/-- Gathering pairs onto fields: the last pair of a name wins over what was there. -/
theorem get?_foldl_insert (pairs : List (String × α)) (fields : Fields α) (name : String) :
    get? name (pairs.foldl (fun fields pair => insert pair.1 pair.2 fields) fields)
      = (last? name pairs).or (get? name fields) := by
  induction pairs generalizing fields with
  | nil => rfl
  | cons pair rest ih =>
    obtain ⟨key, x⟩ := pair
    rw [List.foldl_cons, ih, last?, Option.or_assoc]
    split
    · rename_i e
      rw [e, get?_insert_self]
      rfl
    · rename_i ne
      rw [get?_insert_of_ne ne]
      rfl

/-- Gathered fields say of each name what the last pair of the name says. -/
theorem get?_ofList_eq_last? (pairs : List (String × α)) (name : String) :
    get? name (ofList pairs) = last? name pairs := by
  rw [ofList, get?_foldl_insert, get?_nil, Option.or_none]

/-- Gathered fields say of each name what the pairs say, where no name is repeated. -/
theorem get?_ofList {pairs : List (String × α)} (distinct : (names pairs).Nodup) (name : String) :
    get? name (ofList pairs) = get? name pairs := by
  rw [get?_ofList_eq_last?, last?_eq_get? distinct]

/-- Fields in order are gathered into themselves. -/
theorem ofList_of_ordered {fields : Fields α} (h : Ordered fields) : ofList fields = fields :=
  (ordered_ofList fields).ext h fun name => get?_ofList h.nodup_names name

/-- What is gathered onto fields is among the pairs, or was there before. -/
theorem mem_of_mem_foldl_insert {pairs : List (String × α)} {fields : Fields α} {pair : String × α}
    (h : pair ∈ pairs.foldl (fun fields pair => insert pair.1 pair.2 fields) fields) :
    pair ∈ pairs ∨ pair ∈ fields := by
  induction pairs generalizing fields with
  | nil => exact .inr h
  | cons first rest ih =>
    rcases ih h with later | before
    · exact .inl (List.mem_cons_of_mem _ later)
    · rcases mem_of_mem_insert before with rfl | before
      · exact .inl List.mem_cons_self
      · exact .inr before

/-- What is gathered is among the pairs. -/
theorem mem_of_mem_ofList {pairs : List (String × α)} {pair : String × α} (h : pair ∈ ofList pairs) :
    pair ∈ pairs :=
  (mem_of_mem_foldl_insert h).resolve_right List.not_mem_nil

/-- Setting a name makes at most one field more. -/
theorem length_insert_le (name : String) (x : α) (fields : Fields α) :
    (insert name x fields).length ≤ fields.length + 1 := by
  induction fields with
  | nil => exact Nat.le_refl _
  | cons pair rest ih =>
    obtain ⟨key, y⟩ := pair
    simp only [insert]
    split
    · exact Nat.le_refl _
    · split
      · exact Nat.le_succ _
      · exact Nat.succ_le_succ ih

/-- Gathering makes at most as many fields as there are pairs. -/
theorem length_ofList_le (pairs : List (String × α)) : (ofList pairs).length ≤ pairs.length := by
  have gathered (fields : Fields α) :
      (pairs.foldl (fun fields pair => insert pair.1 pair.2 fields) fields).length
        ≤ fields.length + pairs.length := by
    induction pairs generalizing fields with
    | nil => exact Nat.le_refl _
    | cons pair rest ih =>
      have one := length_insert_le pair.1 pair.2 fields
      have others := ih (insert pair.1 pair.2 fields)
      rw [List.foldl_cons, List.length_cons]
      omega
  simpa [ofList] using gathered []

/-! ### Taking names out and mapping -/

/-- Taking a name out leaves the others alone. -/
theorem get?_erase_of_ne {name other : String} (h : name ≠ other) (fields : Fields α) :
    get? other (erase name fields) = get? other fields := by
  induction fields with
  | nil => rfl
  | cons pair rest ih =>
    obtain ⟨key, x⟩ := pair
    simp only [erase]
    split
    · rename_i e
      rw [get?_cons, if_neg (e ▸ h)]
    · rw [get?_cons, get?_cons, ih]

/-- Pairs that are kept and changed by what stands under their names have names that were there. -/
theorem names_filterMap_sublist (f : String → α → Option β) (pairs : List (String × α)) :
    (names (pairs.filterMap fun pair => (f pair.1 pair.2).map (pair.1, ·))).Sublist
      (names pairs) := by
  induction pairs with
  | nil => exact List.Sublist.slnil
  | cons pair rest ih =>
    obtain ⟨key, x⟩ := pair
    rw [List.filterMap_cons, names_cons]
    cases f key x with
    | none => exact ih.cons _
    | some y => exact ih.cons_cons _

/-- Pairs whose things are all kept as they are stay as they are. -/
theorem filterMap_eq_self (f : String → α → Option α) {pairs : List (String × α)}
    (kept : ∀ pair ∈ pairs, f pair.1 pair.2 = some pair.2) :
    (pairs.filterMap fun pair => (f pair.1 pair.2).map (pair.1, ·)) = pairs := by
  induction pairs with
  | nil => rfl
  | cons pair rest ih =>
    rw [List.forall_mem_cons] at kept
    rw [List.filterMap_cons, kept.1, Option.map_some, ih kept.2]

/-- Looking up a name after all things have been changed, and some dropped, by a function of the
name and the thing. -/
theorem get?_filterMap (f : String → α → Option β) {pairs : Fields α}
    (distinct : (names pairs).Nodup) (name : String) :
    get? name (pairs.filterMap fun pair => (f pair.1 pair.2).map (pair.1, ·))
      = (get? name pairs).bind (f name) := by
  induction pairs with
  | nil => rfl
  | cons pair rest ih =>
    obtain ⟨key, x⟩ := pair
    rw [names_cons, List.nodup_cons] at distinct
    -- When the first pair is dropped, its name must not come up again later.
    have none_later (missing : key = name) :
        get? name (rest.filterMap fun pair => (f pair.1 pair.2).map (pair.1, ·)) = none := by
      apply get?_eq_none_of_not_mem
      intro mem
      exact distinct.1 (missing ▸ (names_filterMap_sublist f rest).mem mem)
    rw [List.filterMap_cons, get?_cons]
    by_cases e : key = name
    · rw [if_pos e, Option.bind_some, e]
      cases f name x with
      | none => exact none_later e
      | some y => exact if_pos rfl
    · rw [if_neg e, ← ih distinct.2]
      cases f key x with
      | none => rfl
      | some y => exact if_neg e

/-- Looking up a name among the pairs that are kept for what stands in them. -/
theorem get?_filter (keep : α → Bool) {pairs : Fields α} (distinct : (names pairs).Nodup)
    (name : String) :
    get? name (pairs.filter fun pair => keep pair.2) = (get? name pairs).filter keep := by
  have all : (pairs.filter fun pair => keep pair.2) =
      pairs.filterMap fun pair => ((some pair.2).filter keep).map (pair.1, ·) := by
    rw [← List.filterMap_eq_filter]
    congr 1
    funext ⟨key, x⟩
    cases kept : keep x <;> simp [Option.guard, kept, Option.filter]
  rw [all, get?_filterMap (fun _ x => (some x).filter keep) distinct]
  cases get? name pairs <;> rfl

/-- Keeping and changing some of the things keeps fields in order. -/
theorem Ordered.filterMap {fields : Fields α} (h : Ordered fields) (f : String → α → Option β) :
    Ordered (fields.filterMap fun pair => (f pair.1 pair.2).map (pair.1, ·)) := by
  induction fields with
  | nil => exact ordered_nil
  | cons pair rest ih =>
    obtain ⟨key, x⟩ := pair
    obtain ⟨least, rest_ordered⟩ := ordered_cons.mp h
    rw [List.filterMap_cons]
    cases f key x with
    | none => exact ih rest_ordered
    | some y =>
      refine ordered_cons.mpr ⟨fun pair mem => ?_, ih rest_ordered⟩
      obtain ⟨old, old_mem, eq⟩ := List.mem_filterMap.mp mem
      obtain ⟨w, -, rfl⟩ := Option.map_eq_some_iff.mp eq
      exact least old old_mem

end CertifiedCalls.Fields
