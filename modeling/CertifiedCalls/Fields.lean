/-! # Named fields
**Fields** are pairs of a name and a thing, in increasing order of the names and with no name
twice. The operations here keep that order; it is the order of the code points of the names, which
is also the order of their octets. -/

namespace CertifiedCalls

/-- **Fields**: named things in increasing order of their names. -/
abbrev Fields (α : Type) := List (String × α)

namespace Fields

variable {α : Type}

/-- The thing of a name. -/
def get? (name : String) : Fields α → Option α
  | [] => none
  | (key, x) :: rest => if key = name then some x else get? name rest

/-- Sets the thing of a name. -/
def insert (name : String) (x : α) : Fields α → Fields α
  | [] => [(name, x)]
  | (key, y) :: rest =>
    if name < key then (name, x) :: (key, y) :: rest
    else if name = key then (name, x) :: rest
    else (key, y) :: insert name x rest

/-- Takes a name out. -/
def erase (name : String) : Fields α → Fields α
  | [] => []
  | (key, x) :: rest => if key = name then rest else (key, x) :: erase name rest

/-- Fields from pairs in any order, the last of two pairs of one name winning. -/
def ofList (pairs : List (String × α)) : Fields α :=
  pairs.foldl (fun fields pair => insert pair.1 pair.2 fields) []

/-- The names are in increasing order, with no name twice. -/
def Ordered (fields : Fields α) : Prop := fields.Pairwise fun a b => a.1 < b.1

@[simp] theorem get?_nil (name : String) : get? name ([] : Fields α) = none := rfl

@[simp] theorem ofList_nil : ofList ([] : List (String × α)) = [] := rfl

/-- No fields are in order. -/
theorem ordered_nil : Ordered ([] : Fields α) := List.Pairwise.nil

/-- The thing just set is found under its name. -/
@[simp] theorem get?_insert_self (name : String) (x : α) (fields : Fields α) :
    get? name (insert name x fields) = some x := by
  induction fields with
  | nil => simp [insert, get?]
  | cons pair rest ih =>
    obtain ⟨key, y⟩ := pair
    simp only [insert]
    split
    · simp [get?]
    · split
      · simp [get?]
      · rename_i h
        have : ¬ key = name := fun e => h e.symm
        simp [get?, this, ih]

/-- Setting one name leaves the others alone. -/
theorem get?_insert_of_ne {name other : String} (h : name ≠ other) (x : α) (fields : Fields α) :
    get? other (insert name x fields) = get? other fields := by
  induction fields with
  | nil => simp [insert, get?, h]
  | cons pair rest ih =>
    obtain ⟨key, y⟩ := pair
    simp only [insert]
    split
    · simp [get?, h]
    · split
      · rename_i e
        subst e
        simp [get?, h]
      · by_cases hk : key = other <;> simp [get?, hk, ih]

end Fields

end CertifiedCalls
