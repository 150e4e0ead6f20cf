import CertifiedCalls.Proofs.Certificate.Lookup

/-! # Trees of children
The tree of a list of **children** keeps nothing of how its forks are laid out: its parts are the
sorted children (`parts_ofChildren`). So looking for a label finds the first child with that label,
as the list has it, and proves its absence where no child has it (`search_ofChildren`). -/

namespace CertifiedCalls.HashTree

/-! ### Layout -/

/-- Joining neighbours keeps the parts. -/
theorem parts_pairUp (ts : List HashTree) : (pairUp ts).flatMap parts = ts.flatMap parts := by
  induction ts using pairUp.induct with
  | case1 left right rest ih =>
    simp only [pairUp, List.flatMap_cons, parts, ih, List.append_assoc]
  | case2 ts alone => rw [pairUp.eq_2 ts alone]

/-- A row joined under forks has the parts of its trees. -/
theorem parts_join (ts : List HashTree) : (join ts).parts = ts.flatMap parts := by
  induction ts using join.induct with
  | case1 => rw [join]; rfl
  | case2 t => simp [join]
  | case3 s t rest ih => rw [join, ih, parts_pairUp]

/-- The parts of a tree of children are the sorted children, each under its label. -/
theorem parts_ofChildren (children : List (Bytes × HashTree)) :
    (ofChildren children).parts
      = (sortChildren children).map fun child => .labeled child.1 child.2 := by
  rw [ofChildren, parts_join, List.flatMap_map]
  exact List.map_eq_flatMap.symm

/-! ### Finding a child -/

/-- The first child of a list that has a label. -/
def firstChild? (label : Bytes) (children : List (Bytes × HashTree)) : Option HashTree :=
  (children.find? fun child => child.1 == label).map (·.2)

/-- The first child with a label is the head, or the first one of the rest. -/
theorem firstChild?_cons (label : Bytes) (child : Bytes × HashTree)
    (rest : List (Bytes × HashTree)) :
    firstChild? label (child :: rest)
      = if child.1 = label then some child.2 else firstChild? label rest := by
  unfold firstChild?
  by_cases e : child.1 = label
  · simp [e]
  · simp [e]

/-- A child is inserted in front of those with its label. -/
theorem filter_insertChild (label : Bytes) (child : Bytes × HashTree)
    (rest : List (Bytes × HashTree)) :
    (insertChild child rest).filter (·.1 == label) = (child :: rest).filter (·.1 == label) := by
  induction rest with
  | nil => rfl
  | cons other rest ih =>
    rw [insertChild]
    split
    · -- The child that is passed has another label, so only one of the two can have this one.
      rename_i passed
      have ne : other.1 ≠ child.1 := by
        intro e
        rw [e] at passed
        exact Bytes.before_irrefl child.1 passed
      rw [List.filter_cons, ih]
      by_cases e : other.1 = label
      · have ne' : child.1 ≠ label := fun e' => ne (e.trans e'.symm)
        simp [e, ne']
      · simp [List.filter_cons, e]
    · rfl

/-- Sorting keeps the order of the children that share a label. -/
theorem filter_sortChildren (label : Bytes) (children : List (Bytes × HashTree)) :
    (sortChildren children).filter (·.1 == label) = children.filter (·.1 == label) := by
  induction children with
  | nil => rfl
  | cons child rest ih =>
    show (insertChild child (sortChildren rest)).filter _ = _
    rw [filter_insertChild, List.filter_cons, List.filter_cons, ih]

/-- Sorting keeps the first child of each label. -/
theorem firstChild?_sortChildren (label : Bytes) (children : List (Bytes × HashTree)) :
    firstChild? label (sortChildren children) = firstChild? label children := by
  rw [firstChild?, firstChild?, ← List.head?_filter, ← List.head?_filter, filter_sortChildren]

/-- Among labelled parts, the first child with a label is found. -/
theorem subtreeOf?_map_labeled (label : Bytes) (children : List (Bytes × HashTree)) :
    subtreeOf? label (children.map fun child => .labeled child.1 child.2)
      = firstChild? label children := by
  induction children with
  | nil => rfl
  | cons child rest ih => rw [List.map_cons, subtreeOf?, ih, firstChild?_cons]

/-- Labelled parts without a label can be cut at it, whatever their order. -/
theorem exists_cut_of_firstChild?_eq_none {label : Bytes} {children : List (Bytes × HashTree)}
    (missing : firstChild? label children = none) :
    ∃ as bs, Cut label (children.map fun child => .labeled child.1 child.2) as bs := by
  induction children with
  | nil => exact ⟨[], [], rfl, .inl rfl, .inl rfl⟩
  | cons child rest ih =>
    rw [firstChild?_cons] at missing
    by_cases e : child.1 = label
    · simp [e] at missing
    rw [if_neg e] at missing
    -- A first label after the one looked for is where to cut; else the rest has a cut of its own.
    rcases Bytes.before_or_eq_or_before label child.1 with high | same | low
    · exact ⟨[], _, rfl, .inl rfl, .inr ⟨child.1, child.2, _, rfl, high⟩⟩
    · exact absurd same.symm e
    · obtain ⟨as, bs, whole, below, above⟩ := ih missing
      refine ⟨.labeled child.1 child.2 :: as, bs, ?_, ?_, above⟩
      · rw [List.map_cons, whole, List.cons_append]
      · rcases below with rfl | ⟨front, l, s, rfl, low'⟩
        · exact .inr ⟨[], child.1, child.2, rfl, low⟩
        · exact .inr ⟨.labeled child.1 child.2 :: front, l, s, rfl, low'⟩

/-- Looking for a label in a tree of children finds the first child that has it, and proves that
there is none otherwise. -/
theorem search_ofChildren (label : Bytes) (children : List (Bytes × HashTree)) :
    (ofChildren children).search label = (firstChild? label children).elim .absent .found := by
  rw [search, parts_ofChildren, subtreeOf?_map_labeled, firstChild?_sortChildren]
  cases found : firstChild? label children with
  | some subtree => rfl
  | none =>
    have cut := exists_cut_of_firstChild?_eq_none
      ((firstChild?_sortChildren label children).trans found)
    have entries : ∀ t ∈ (sortChildren children).map fun child => HashTree.labeled child.1 child.2,
        IsEntry t := by
      intro t mem
      obtain ⟨child, _, rfl⟩ := List.mem_map.mp mem
      exact .labeled child.1 child.2
    simp only [(excludes_iff entries).mpr cut, if_true, Option.elim_none]

/-- Looking up a path in a tree of children goes on in the first child with the first label. -/
theorem lookup_ofChildren (label : Bytes) (rest : List Bytes) (children : List (Bytes × HashTree)) :
    (ofChildren children).lookup (label :: rest)
      = (firstChild? label children).elim .absent fun subtree => subtree.lookup rest := by
  rw [lookup, search_ofChildren]
  cases firstChild? label children <;> rfl

/-- A lone label is the tree of one child. -/
theorem ofChildren_singleton (label : Bytes) (subtree : HashTree) :
    ofChildren [(label, subtree)] = .labeled label subtree := by
  rw [ofChildren, sortChildren, List.foldr_cons, List.foldr_nil, insertChild, List.map_cons,
    List.map_nil, join]

/-- Under a lone label a path goes on where it starts with that label, and nowhere else. -/
theorem lookup_labeled (label first : Bytes) (subtree : HashTree) (rest : List Bytes) :
    (HashTree.labeled label subtree).lookup (first :: rest)
      = if label = first then subtree.lookup rest else .absent := by
  rw [← ofChildren_singleton, lookup_ofChildren, firstChild?_cons]
  split <;> rfl

end CertifiedCalls.HashTree
