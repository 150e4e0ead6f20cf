import CertifiedCalls.Proofs.Certificate.Children
import Mathlib.Algebra.Group.Nat.Defs
import Mathlib.Data.Nat.Log
import Mathlib.Logic.Function.Iterate

/-! # Balanced trees of children
The tree of a list of children is an exact map from labels to the first child of each, and it is
**balanced**: it holds every child once, in the order of the labels, and as few rounds of joining
neighbours make it as there can be, so that no child lies under more forks than the logarithm of their
number (`ofChildren_exact`). -/

namespace CertifiedCalls.HashTree

/-! ### Sorting -/

/-- Inserting a child adds it to the others. -/
theorem insertChild_perm (child : Bytes × HashTree) (rest : List (Bytes × HashTree)) :
    (insertChild child rest).Perm (child :: rest) := by
  induction rest with
  | nil => exact .refl _
  | cons other rest ih =>
    rw [insertChild]
    split
    · exact (ih.cons other).trans (.swap child other rest)
    · exact .refl _

/-- Sorting keeps every child once. -/
theorem sortChildren_perm (children : List (Bytes × HashTree)) :
    (sortChildren children).Perm children := by
  induction children with
  | nil => exact .refl _
  | cons child rest ih => exact (insertChild_perm child (sortChildren rest)).trans (ih.cons child)

/-- Children are in **label order** when no label comes before one that stands in front of it. -/
def InLabelOrder (children : List (Bytes × HashTree)) : Prop :=
  children.Pairwise fun a b => a.1 = b.1 ∨ a.1.before b.1 = true

/-- A child is inserted where its label belongs. -/
theorem inLabelOrder_insertChild (child : Bytes × HashTree) {rest : List (Bytes × HashTree)}
    (sorted : InLabelOrder rest) : InLabelOrder (insertChild child rest) := by
  induction rest with
  | nil => exact List.pairwise_singleton _ _
  | cons other rest ih =>
    obtain ⟨first, later⟩ := List.pairwise_cons.mp sorted
    rw [insertChild]
    split
    · rename_i passed
      refine List.pairwise_cons.mpr ⟨fun c mem => ?_, ih later⟩
      rcases List.mem_cons.mp ((insertChild_perm child rest).subset mem) with rfl | mem
      · exact .inr passed
      · exact first c mem
    · rename_i stays
      have here : child.1 = other.1 ∨ child.1.before other.1 = true := by
        rcases Bytes.before_or_eq_or_before child.1 other.1 with lower | same | higher
        · exact .inr lower
        · exact .inl same
        · exact absurd higher stays
      refine List.pairwise_cons.mpr ⟨fun c mem => ?_, sorted⟩
      rcases List.mem_cons.mp mem with rfl | mem
      · exact here
      · rcases here with same | lower
        · rw [same]
          exact first c mem
        · rcases first c mem with same | lower'
          · exact .inr (same ▸ lower)
          · exact .inr (Bytes.before_trans lower lower')

/-- Sorted children are in label order. -/
theorem inLabelOrder_sortChildren (children : List (Bytes × HashTree)) :
    InLabelOrder (sortChildren children) := by
  induction children with
  | nil => exact .nil
  | cons child rest ih => exact inLabelOrder_insertChild child ih

/-! ### Rounds -/

/-- A round of joining neighbours halves a row, rounding up. -/
theorem length_pairUp : (ts : List HashTree) → (pairUp ts).length = (ts.length + 1) / 2
  | [] => rfl
  | [_] => by simp [pairUp]
  | _ :: _ :: rest => by
    have later := length_pairUp rest
    simp only [pairUp, List.length_cons]
    omega

/-- So many rounds divide its length by a power of two. -/
theorem length_pairUp_iterate_le_iff {k bound : Nat} {ts : List HashTree} :
    (pairUp^[k] ts).length ≤ bound ↔ ts.length ≤ 2 ^ k * bound := by
  induction k generalizing ts with
  | zero => rw [Function.iterate_zero_apply, Nat.pow_zero, Nat.one_mul]
  | succ k ih =>
    rw [Function.iterate_succ_apply, ih, length_pairUp, Nat.pow_succ, Nat.mul_right_comm]
    omega

/-- Rounds go on as long as there is more than one tree. -/
theorem one_lt_length_pairUp_iterate_iff {k : Nat} {ts : List HashTree} :
    1 < (pairUp^[k] ts).length ↔ k < Nat.clog 2 ts.length := by
  rw [Nat.lt_clog_iff_pow_lt Nat.one_lt_two, ← Nat.not_le, length_pairUp_iterate_le_iff, Nat.mul_one,
    Nat.not_le]

/-- A round does not change what a row is joined to. -/
theorem join_pairUp (ts : List HashTree) : join (pairUp ts) = join ts := by
  match ts with
  | [] => rfl
  | [t] => rfl
  | s :: t :: rest => rw [join.eq_3]

/-- Nor do so many rounds. -/
theorem join_pairUp_iterate (k : Nat) (ts : List HashTree) : join (pairUp^[k] ts) = join ts := by
  induction k generalizing ts with
  | zero => rfl
  | succ k ih => rw [Function.iterate_succ_apply, ih, join_pairUp]

/-- A row of trees comes to a single one in as many rounds as the logarithm of its length. -/
theorem pairUp_iterate_clog {ts : List HashTree} (ne : ts ≠ []) :
    pairUp^[Nat.clog 2 ts.length] ts = [join ts] := by
  have few : (pairUp^[Nat.clog 2 ts.length] ts).length ≤ 1 :=
    Nat.le_of_not_lt fun more => absurd (one_lt_length_pairUp_iterate_iff.mp more) (Nat.lt_irrefl _)
  have some : 0 < (pairUp^[Nat.clog 2 ts.length] ts).length := by
    refine Nat.pos_of_ne_zero fun none => ne (List.eq_nil_of_length_eq_zero ?_)
    have bound := length_pairUp_iterate_le_iff.mp (Nat.le_of_eq none)
    omega
  have joined := join_pairUp_iterate (Nat.clog 2 ts.length) ts
  match row : pairUp^[Nat.clog 2 ts.length] ts, few, some with
  | [t], _, _ =>
    rw [row, join] at joined
    rw [joined]

/-! ### Forks -/

/-- The parts of a tree with the number of forks above each. -/
def partsUnder (forks : Nat) : HashTree → List (Nat × HashTree)
  | .empty => []
  | .fork left right => partsUnder (forks + 1) left ++ partsUnder (forks + 1) right
  | other => [(forks, other)]

/-- Counting forks leaves the parts as they are. -/
theorem map_partsUnder (forks : Nat) (t : HashTree) :
    (t.partsUnder forks).map Prod.snd = t.parts := by
  induction t generalizing forks with
  | fork left right ihl ihr => rw [partsUnder, List.map_append, ihl, ihr, parts]
  | _ => rfl

/-- A tree is **no deeper** than a bound when no part of it lies under more forks. -/
def NoDeeper (bound : Nat) (t : HashTree) : Prop :=
  ∀ forks, ∀ part ∈ t.partsUnder forks, part.1 ≤ forks + bound

/-- A fork is one deeper than its sides. -/
theorem NoDeeper.fork {bound : Nat} {left right : HashTree} (hl : NoDeeper bound left)
    (hr : NoDeeper bound right) : NoDeeper (bound + 1) (.fork left right) := by
  intro forks part mem
  have below : part.1 ≤ forks + 1 + bound :=
    (List.mem_append.mp mem).elim (hl (forks + 1) part) (hr (forks + 1) part)
  omega

/-- A round puts a row under one fork more. -/
theorem noDeeper_pairUp {bound : Nat} {ts : List HashTree} (each : ∀ t ∈ ts, NoDeeper bound t) :
    ∀ t ∈ pairUp ts, NoDeeper (bound + 1) t := by
  induction ts using pairUp.induct with
  | case1 left right rest ih =>
    rw [pairUp]
    refine List.forall_mem_cons.mpr ⟨.fork (each left (by simp)) (each right (by simp)), ih ?_⟩
    exact fun t mem => each t (by simp [mem])
  | case2 ts alone =>
    rw [pairUp.eq_2 ts alone]
    exact fun t mem forks part inside => Nat.le_succ_of_le (each t mem forks part inside)

/-- So many rounds put it under as many forks. -/
theorem noDeeper_pairUp_iterate (k : Nat) {bound : Nat} {ts : List HashTree}
    (each : ∀ t ∈ ts, NoDeeper bound t) : ∀ t ∈ pairUp^[k] ts, NoDeeper (bound + k) t := by
  induction k generalizing ts bound with
  | zero => exact each
  | succ k ih =>
    have deeper := ih (noDeeper_pairUp each)
    rwa [Nat.add_right_comm] at deeper

/-- A row of trees is joined under as many forks as there are rounds. -/
theorem noDeeper_join {ts : List HashTree} (flat : ∀ t ∈ ts, NoDeeper 0 t) :
    NoDeeper (Nat.clog 2 ts.length) (join ts) := by
  by_cases none : ts = []
  · subst none
    rw [join]
    exact fun forks part inside => absurd inside List.not_mem_nil
  · have rounds := noDeeper_pairUp_iterate (Nat.clog 2 ts.length) flat
    rw [pairUp_iterate_clog none, Nat.zero_add] at rounds
    exact rounds _ List.mem_cons_self

/-! ### The whole tree -/

/-- A tree is **balanced** over a row of children. -/
structure Balanced (children row : List (Bytes × HashTree)) (t : HashTree) : Prop where
  /-- The row holds every child once. -/
  kept : row.Perm children
  /-- It is in label order. -/
  ordered : InLabelOrder row
  /-- Children that share a label keep their order. -/
  stable : ∀ label, row.filter (·.1 == label) = children.filter (·.1 == label)
  /-- The parts of the tree are the row, each child under its label. -/
  parts : (t.partsUnder 0).map Prod.snd = row.map fun child => .labeled child.1 child.2
  /-- No part lies under more forks than the logarithm of their number, rounded up. -/
  shallow : ∀ part ∈ t.partsUnder 0, part.1 ≤ Nat.clog 2 children.length
  /-- So many rounds are needed to join the row, and no more. -/
  rounds : ∀ k, 1 < (pairUp^[k] (row.map fun child => .labeled child.1 child.2)).length ↔
    k < Nat.clog 2 children.length
  /-- They come to the tree alone. -/
  ends : children ≠ [] →
    pairUp^[Nat.clog 2 children.length] (row.map fun child => .labeled child.1 child.2) = [t]

/-- The tree of children is balanced over the sorted children. -/
theorem balanced_ofChildren (children : List (Bytes × HashTree)) :
    Balanced children (sortChildren children) (ofChildren children) := by
  have kept := sortChildren_perm children
  have count : ((sortChildren children).map fun child => HashTree.labeled child.1 child.2).length
      = children.length := by
    rw [List.length_map, kept.length_eq]
  have flat : ∀ t ∈ (sortChildren children).map fun child => HashTree.labeled child.1 child.2,
      NoDeeper 0 t := by
    intro t mem forks part inside
    obtain ⟨child, -, rfl⟩ := List.mem_map.mp mem
    obtain rfl := List.mem_singleton.mp inside
    exact Nat.le_refl forks
  refine ⟨kept, inLabelOrder_sortChildren children, fun label => filter_sortChildren label children,
    ?_, fun part inside => ?_, fun k => ?_, fun some => ?_⟩
  · rw [map_partsUnder, parts_ofChildren]
  · have shallow := noDeeper_join flat 0 part inside
    rwa [count, Nat.zero_add] at shallow
  · rw [one_lt_length_pairUp_iterate_iff, count]
  · rw [← count]
    exact pairUp_iterate_clog fun none => some
      (List.eq_nil_of_length_eq_zero (count.symm.trans (List.length_eq_zero_iff.mpr none)))

/-- **A tree of children is an exact and balanced map.** Looking up a path goes on in the first child
with the first label, and proves that there is nothing where there is none; no label is ever unknown.
The tree is balanced over a row of all the children. -/
theorem ofChildren_exact (children : List (Bytes × HashTree)) :
    (∀ label rest, (ofChildren children).lookup (label :: rest)
      = (firstChild? label children).elim .absent fun subtree => subtree.lookup rest) ∧
    (∀ label, (ofChildren children).search label ≠ .unknown) ∧
    ∃ row, Balanced children row (ofChildren children) := by
  refine ⟨fun label rest => lookup_ofChildren label rest children, fun label => ?_,
    sortChildren children, balanced_ofChildren children⟩
  rw [search_ofChildren]
  cases firstChild? label children <;> simp

/-- Five children, two of which share a label: the last one is alone until the last round. -/
example : ofChildren [([3], .leaf [0]), ([1], .leaf [1]), ([2], .leaf [2]), ([1], .leaf [3]),
      ([4], .empty)] =
    .fork (.fork (.fork (.labeled [1] (.leaf [1])) (.labeled [1] (.leaf [3])))
        (.fork (.labeled [2] (.leaf [2])) (.labeled [3] (.leaf [0]))))
      (.labeled [4] .empty) := by
  decide +kernel

end CertifiedCalls.HashTree
