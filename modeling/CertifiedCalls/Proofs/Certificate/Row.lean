import CertifiedCalls.Certificate.HashTree

/-! # Rows of labels
A hash tree is **well formed** when the parts below each of its forks stand in a **row**: they are
labelled or pruned, and the labels that can be seen increase from left to right. The order of the
labels is strict and total (`Bytes.before_trans`, `Bytes.before_or_eq_or_before`). -/

namespace CertifiedCalls

namespace Bytes

/-- The order of byte strings is the lexicographic order of lists. -/
theorem before_iff_lt {a b : Bytes} : before a b = true ↔ a < b := by
  induction a generalizing b with
  | nil => cases b <;> simp [before]
  | cons x a ih =>
    cases b with
    | nil => simp [before]
    | cons y b => simp [before, List.cons_lt_cons_iff, ih]

/-- No byte string comes before itself. -/
theorem before_irrefl (a : Bytes) : ¬ before a a = true := by
  rw [before_iff_lt]
  exact List.lt_irrefl a

/-- What comes before something comes before all that follows it. -/
theorem before_trans {a b c : Bytes} (ab : before a b = true) (bc : before b c = true) :
    before a c = true := by
  rw [before_iff_lt] at ab bc ⊢
  exact List.lt_trans ab bc

/-- Of two different byte strings, one comes before the other. -/
theorem before_or_eq_or_before (a b : Bytes) :
    before a b = true ∨ a = b ∨ before b a = true := by
  rw [before_iff_lt, before_iff_lt]
  by_cases ab : a < b
  · exact .inl ab
  · by_cases ba : b < a
    · exact .inr (.inr ba)
    · exact .inr (.inl (List.le_antisymm (List.not_lt.mp ba) (List.not_lt.mp ab)))

end Bytes

namespace HashTree

/-- A part of a row: a subtree under a label, or a pruned part. -/
inductive IsEntry : HashTree → Prop
  /-- A subtree under a label. -/
  | labeled (label : Bytes) (subtree : HashTree) : IsEntry (.labeled label subtree)
  /-- A pruned part. -/
  | pruned (digest : Bytes) : IsEntry (.pruned digest)

/-- The labels that can be seen among parts. -/
def labels : List HashTree → List Bytes
  | [] => []
  | .labeled label _ :: rest => label :: labels rest
  | _ :: rest => labels rest

/-- Parts stand in a **row** when all are labelled or pruned and the labels increase. -/
structure Row (ts : List HashTree) : Prop where
  /-- All parts are labelled or pruned. -/
  entries : ∀ t ∈ ts, IsEntry t
  /-- The labels increase. -/
  increasing : (labels ts).Pairwise fun a b => a.before b = true

/-- A tree is **well formed** when the parts below each of its forks stand in a row. -/
def WellFormed : HashTree → Prop
  | .fork left right => Row (parts (.fork left right)) ∧ left.WellFormed ∧ right.WellFormed
  | .labeled _ subtree => subtree.WellFormed
  | _ => True

/-! ### Labels -/

/-- A pruned part shows no label. -/
@[simp] theorem labels_pruned (digest : Bytes) (ts : List HashTree) :
    labels (.pruned digest :: ts) = labels ts := rfl

/-- The labels of two groups of parts. -/
@[simp] theorem labels_append (as bs : List HashTree) :
    labels (as ++ bs) = labels as ++ labels bs := by
  induction as with
  | nil => rfl
  | cons t as ih => cases t <;> simp [labels, ih]

/-- A label can be seen where a part has it. -/
theorem mem_labels_iff {label : Bytes} {ts : List HashTree} :
    label ∈ labels ts ↔ ∃ subtree, .labeled label subtree ∈ ts := by
  induction ts with
  | nil => simp [labels]
  | cons t ts ih =>
    cases t with
    | labeled l s =>
      rw [labels, List.mem_cons, ih]
      constructor
      · rintro (rfl | ⟨subtree, mem⟩)
        · exact ⟨s, List.mem_cons_self⟩
        · exact ⟨subtree, List.mem_cons_of_mem _ mem⟩
      · rintro ⟨subtree, mem⟩
        rcases List.mem_cons.mp mem with e | mem
        · exact .inl (HashTree.labeled.inj e).1
        · exact .inr ⟨subtree, mem⟩
    | _ => simp [labels, ih]

/-- The subtree that is found under a label belongs to a part with that label. -/
theorem mem_of_subtreeOf?_eq_some {label : Bytes} {ts : List HashTree} {subtree : HashTree}
    (found : subtreeOf? label ts = some subtree) : .labeled label subtree ∈ ts := by
  induction ts with
  | nil => simp [subtreeOf?] at found
  | cons t ts ih =>
    cases t with
    | labeled l s =>
      rw [subtreeOf?] at found
      split at found
      · rename_i e
        obtain rfl := Option.some.inj found
        rw [e]
        exact List.mem_cons_self
      · exact List.mem_cons_of_mem _ (ih found)
    | _ => exact List.mem_cons_of_mem _ (ih found)

/-- A label under which nothing is found cannot be seen. -/
theorem not_mem_labels_of_subtreeOf?_eq_none {label : Bytes} {ts : List HashTree}
    (missing : subtreeOf? label ts = none) : label ∉ labels ts := by
  induction ts with
  | nil => exact List.not_mem_nil
  | cons t ts ih =>
    cases t with
    | labeled l s =>
      rw [subtreeOf?] at missing
      split at missing
      · simp at missing
      · rename_i ne
        rw [labels, List.mem_cons, not_or]
        exact ⟨fun e => ne e.symm, ih missing⟩
    | _ => exact ih missing

/-! ### Rows -/

namespace Row

/-- The front and the rest of a row are rows. -/
theorem of_append {as bs : List HashTree} (row : Row (as ++ bs)) : Row as ∧ Row bs := by
  have increasing := row.increasing
  rw [labels_append, List.pairwise_append] at increasing
  exact ⟨⟨fun t mem => row.entries t (List.mem_append_left _ mem), increasing.1⟩,
    ⟨fun t mem => row.entries t (List.mem_append_right _ mem), increasing.2.1⟩⟩

/-- What follows the first part of a row is a row. -/
theorem tail {t : HashTree} {ts : List HashTree} (row : Row (t :: ts)) : Row ts := by
  -- A row can be cut anywhere, and so after its first part.
  have cut : Row ([t] ++ ts) := row
  exact cut.of_append.2

/-- Each label stands in a row at most once. -/
theorem eq_of_mem {ts : List HashTree} (row : Row ts) {label : Bytes} {s t : HashTree}
    (left : .labeled label s ∈ ts) (right : .labeled label t ∈ ts) : s = t := by
  induction ts with
  | nil => exact absurd left List.not_mem_nil
  | cons first rest ih =>
    have later : Row rest := row.tail
    -- A part with the label of the first one would have to come after itself.
    have once {s t : HashTree} (e : .labeled label s = first) (mem : .labeled label t ∈ rest) :
        False := by
      have increasing := row.increasing
      rw [← e, labels, List.pairwise_cons] at increasing
      exact Bytes.before_irrefl label (increasing.1 label (mem_labels_iff.mpr ⟨t, mem⟩))
    rcases List.mem_cons.mp left with l | l
    · rcases List.mem_cons.mp right with r | r
      · exact (HashTree.labeled.inj (l.trans r.symm)).2
      · exact (once l r).elim
    · rcases List.mem_cons.mp right with r | r
      · exact (once r l).elim
      · exact ih later l r

end Row

/-- A tree is well formed when its parts stand in a row and the subtrees under its labels are well
formed. -/
theorem wellFormed_of_parts {t : HashTree} (row : Row t.parts)
    (subtrees : ∀ label subtree, .labeled label subtree ∈ t.parts → subtree.WellFormed) :
    t.WellFormed := by
  induction t with
  | empty | leaf | pruned => trivial
  | labeled label subtree => exact subtrees label subtree List.mem_cons_self
  | fork left right ihl ihr =>
    -- The parts on either side of a fork are a row of their own.
    obtain ⟨row_left, row_right⟩ := row.of_append
    exact ⟨row,
      ihl row_left fun l s mem => subtrees l s (List.mem_append_left _ mem),
      ihr row_right fun l s mem => subtrees l s (List.mem_append_right _ mem)⟩

namespace WellFormed

/-- The parts of a well-formed tree stand in a row, unless the tree is a leaf. -/
theorem row {t : HashTree} (formed : t.WellFormed) (inner : ∀ value, t ≠ .leaf value) :
    Row t.parts := by
  cases t with
  | empty => exact ⟨List.forall_mem_nil _, List.Pairwise.nil⟩
  | fork left right => exact formed.1
  | labeled label subtree =>
    exact ⟨fun t mem => List.mem_singleton.mp mem ▸ .labeled label subtree,
      List.pairwise_singleton _ _⟩
  | leaf value => exact absurd rfl (inner value)
  | pruned digest =>
    exact ⟨fun t mem => List.mem_singleton.mp mem ▸ .pruned digest, List.Pairwise.nil⟩

/-- The subtrees under the labels of a well-formed tree are well formed. -/
theorem subtree {t : HashTree} (formed : t.WellFormed) {label : Bytes} {subtree : HashTree}
    (mem : .labeled label subtree ∈ t.parts) : subtree.WellFormed := by
  induction t with
  | empty => exact absurd mem List.not_mem_nil
  | fork left right ihl ihr =>
    rcases List.mem_append.mp mem with mem | mem
    · exact ihl formed.2.1 mem
    · exact ihr formed.2.2 mem
  | labeled l s =>
    obtain ⟨rfl, rfl⟩ := HashTree.labeled.inj (List.mem_singleton.mp mem)
    exact formed
  | leaf value => simp [parts] at mem
  | pruned digest => simp [parts] at mem

end WellFormed

end HashTree

end CertifiedCalls
