import CertifiedCalls.Proofs.Certificate.Row

/-! # Completions of pruned trees
A **completion** of a hash tree puts a whole tree in the place of each pruned part, so that the
result is well formed. What a completion does to a tree it does to the parts of the tree
(`Fills.parts`), and each way to fill in the parts comes from one to fill in the tree
(`FillsRow.exists_fills`). A well-formed tree always has a completion, the **hollow** one. -/

namespace CertifiedCalls.HashTree

/-- A tree is **whole** when nothing of it was pruned. -/
def Whole : HashTree → Prop
  | .fork left right => left.Whole ∧ right.Whole
  | .labeled _ subtree => subtree.Whole
  | .pruned _ => False
  | _ => True

/-- A tree **fills** another when it has whole trees in the places of the pruned parts. -/
inductive Fills : HashTree → HashTree → Prop
  /-- No content stays none. -/
  | empty : Fills .empty .empty
  /-- Both sides of a fork are filled in. -/
  | fork {l l' r r' : HashTree} (left : Fills l l') (right : Fills r r') :
    Fills (.fork l r) (.fork l' r')
  /-- A label stays, and its subtree is filled in. -/
  | labeled (label : Bytes) {s s' : HashTree} (subtree : Fills s s') :
    Fills (.labeled label s) (.labeled label s')
  /-- A leaf stays. -/
  | leaf (value : Bytes) : Fills (.leaf value) (.leaf value)
  /-- Any whole tree takes the place of a pruned part. -/
  | pruned (digest : Bytes) {s : HashTree} (whole : s.Whole) : Fills (.pruned digest) s

/-- A **completion** of a tree fills it and is well formed. -/
structure Completion (t s : HashTree) : Prop where
  /-- It has whole trees in the places of the pruned parts. -/
  fills : Fills t s
  /-- It is well formed. -/
  formed : s.WellFormed

/-- A tree **has a leaf** at a path: under the labels of the path, with any forks between them. -/
inductive HasLeaf : HashTree → List Bytes → Bytes → Prop
  /-- The leaf itself, at the end of the path. -/
  | leaf (value : Bytes) : HasLeaf (.leaf value) [] value
  /-- A leaf of a labelled subtree, one label further down. -/
  | labeled {label : Bytes} {s : HashTree} {path : List Bytes} {value : Bytes}
    (h : HasLeaf s path value) : HasLeaf (.labeled label s) (label :: path) value
  /-- A leaf on the left of a fork. -/
  | left {l r : HashTree} {path : List Bytes} {value : Bytes} (h : HasLeaf l path value) :
    HasLeaf (.fork l r) path value
  /-- A leaf on the right of a fork. -/
  | right {l r : HashTree} {path : List Bytes} {value : Bytes} (h : HasLeaf r path value) :
    HasLeaf (.fork l r) path value

/-! ### Leaves -/

/-- A tree has a leaf at the empty path when one of its parts is that leaf. -/
theorem hasLeaf_nil_iff {t : HashTree} {value : Bytes} :
    HasLeaf t [] value ↔ .leaf value ∈ t.parts := by
  constructor
  · intro h
    -- The induction is on the leaf's derivation, so the path has to be a variable.
    generalize e : ([] : List Bytes) = path at h
    induction h with
    | leaf value => exact List.mem_singleton_self _
    | labeled => simp at e
    | left _ ih => exact List.mem_append_left _ (ih e)
    | right _ ih => exact List.mem_append_right _ (ih e)
  · intro mem
    induction t with
    | empty => exact absurd mem List.not_mem_nil
    | fork left right ihl ihr =>
      rcases List.mem_append.mp mem with mem | mem
      · exact .left (ihl mem)
      · exact .right (ihr mem)
    | labeled label subtree => simp [parts] at mem
    | leaf v =>
      obtain rfl := HashTree.leaf.inj (List.mem_singleton.mp mem)
      exact .leaf value
    | pruned digest => simp [parts] at mem

/-- A tree has a leaf at a longer path when a part with its first label has it at the others. -/
theorem hasLeaf_cons_iff {t : HashTree} {label : Bytes} {path : List Bytes} {value : Bytes} :
    HasLeaf t (label :: path) value
      ↔ ∃ subtree, .labeled label subtree ∈ t.parts ∧ HasLeaf subtree path value := by
  constructor
  · intro h
    generalize e : label :: path = whole at h
    induction h with
    | leaf value => simp at e
    | labeled h =>
      obtain ⟨rfl, rfl⟩ := List.cons.inj e
      exact ⟨_, List.mem_singleton_self _, h⟩
    | left _ ih =>
      obtain ⟨subtree, mem, h⟩ := ih e
      exact ⟨subtree, List.mem_append_left _ mem, h⟩
    | right _ ih =>
      obtain ⟨subtree, mem, h⟩ := ih e
      exact ⟨subtree, List.mem_append_right _ mem, h⟩
  · rintro ⟨subtree, mem, h⟩
    induction t with
    | empty => exact absurd mem List.not_mem_nil
    | fork left right ihl ihr =>
      rcases List.mem_append.mp mem with mem | mem
      · exact .left (ihl mem)
      · exact .right (ihr mem)
    | labeled l s =>
      obtain ⟨rfl, rfl⟩ := HashTree.labeled.inj (List.mem_singleton.mp mem)
      exact .labeled h
    | leaf v => simp [parts] at mem
    | pruned digest => simp [parts] at mem

/-- A well-formed tree with a leaf at the empty path is that leaf. -/
theorem eq_leaf_of_hasLeaf_nil {t : HashTree} (formed : t.WellFormed) {value : Bytes}
    (h : HasLeaf t [] value) : t = .leaf value := by
  by_cases leaf : ∃ v, t = .leaf v
  · obtain ⟨v, rfl⟩ := leaf
    cases h
    rfl
  · have row := formed.row fun v e => leaf ⟨v, e⟩
    exact nomatch row.entries _ (hasLeaf_nil_iff.mp h)

/-- The parts of a well-formed tree stand in a row when one of them has a label. -/
theorem WellFormed.row_of_mem {t : HashTree} (formed : t.WellFormed) {label : Bytes}
    {subtree : HashTree} (mem : .labeled label subtree ∈ t.parts) : Row t.parts := by
  apply formed.row
  rintro value rfl
  simp [parts] at mem

/-- A well-formed tree has at most one leaf at a path. -/
theorem HasLeaf.unique {t : HashTree} (formed : t.WellFormed) {path : List Bytes} {v w : Bytes}
    (hv : HasLeaf t path v) (hw : HasLeaf t path w) : v = w := by
  induction path generalizing t with
  | nil =>
    have e := (eq_leaf_of_hasLeaf_nil formed hv).symm.trans (eq_leaf_of_hasLeaf_nil formed hw)
    exact HashTree.leaf.inj e
  | cons label path ih =>
    obtain ⟨s, left, hv⟩ := hasLeaf_cons_iff.mp hv
    obtain ⟨s', right, hw⟩ := hasLeaf_cons_iff.mp hw
    -- A label stands in a row once, so both leaves lie in the same subtree.
    obtain rfl := (formed.row_of_mem left).eq_of_mem left right
    exact ih (formed.subtree left) hv hw

/-! ### Filling in parts -/

/-- Parts fill others one by one, where the parts of a whole tree take the place of a pruned one. -/
inductive FillsRow : List HashTree → List HashTree → Prop
  /-- No parts. -/
  | nil : FillsRow [] []
  /-- A label stays, and its subtree is filled in. -/
  | labeled (label : Bytes) {s s' : HashTree} {ts ts' : List HashTree} (subtree : Fills s s')
    (rest : FillsRow ts ts') : FillsRow (.labeled label s :: ts) (.labeled label s' :: ts')
  /-- A leaf stays. -/
  | leaf (value : Bytes) {ts ts' : List HashTree} (rest : FillsRow ts ts') :
    FillsRow (.leaf value :: ts) (.leaf value :: ts')
  /-- The parts of any whole tree take the place of a pruned part. -/
  | pruned (digest : Bytes) {s : HashTree} (whole : s.Whole) {ts ts' : List HashTree}
    (rest : FillsRow ts ts') : FillsRow (.pruned digest :: ts) (s.parts ++ ts')

namespace FillsRow

/-- Two groups of parts are filled in one after the other. -/
theorem append {as as' bs bs' : List HashTree} (left : FillsRow as as') (right : FillsRow bs bs') :
    FillsRow (as ++ bs) (as' ++ bs') := by
  induction left with
  | nil => exact right
  | labeled label subtree _ ih => exact .labeled label subtree ih
  | leaf value _ ih => exact .leaf value ih
  | pruned digest whole _ ih =>
    rw [List.append_assoc]
    exact .pruned digest whole ih

/-- What fills in two groups of parts fills in one and then the other. -/
theorem of_append {as bs cs : List HashTree} (h : FillsRow (as ++ bs) cs) :
    ∃ as' bs', cs = as' ++ bs' ∧ FillsRow as as' ∧ FillsRow bs bs' := by
  induction as generalizing cs with
  | nil => exact ⟨[], cs, rfl, .nil, h⟩
  | cons t as ih =>
    cases h with
    | labeled label subtree rest =>
      obtain ⟨as', bs', rfl, left, right⟩ := ih rest
      exact ⟨_ :: as', bs', rfl, .labeled label subtree left, right⟩
    | leaf value rest =>
      obtain ⟨as', bs', rfl, left, right⟩ := ih rest
      exact ⟨_ :: as', bs', rfl, .leaf value left, right⟩
    | pruned digest whole rest =>
      obtain ⟨as', bs', rfl, left, right⟩ := ih rest
      exact ⟨_ ++ as', bs', (List.append_assoc _ _ _).symm, .pruned digest whole left, right⟩

/-- A label of the parts is a label of what fills them in. -/
theorem exists_mem {ts ts' : List HashTree} (h : FillsRow ts ts') {label : Bytes} {s : HashTree}
    (mem : .labeled label s ∈ ts) : ∃ s', .labeled label s' ∈ ts' ∧ Fills s s' := by
  induction h with
  | nil => exact absurd mem List.not_mem_nil
  | labeled l subtree _ ih =>
    rcases List.mem_cons.mp mem with e | mem
    · obtain ⟨rfl, rfl⟩ := HashTree.labeled.inj e
      exact ⟨_, List.mem_cons_self, subtree⟩
    · obtain ⟨s', mem, fills⟩ := ih mem
      exact ⟨s', List.mem_cons_of_mem _ mem, fills⟩
  | leaf value _ ih =>
    rcases List.mem_cons.mp mem with e | mem
    · simp at e
    · obtain ⟨s', mem, fills⟩ := ih mem
      exact ⟨s', List.mem_cons_of_mem _ mem, fills⟩
  | pruned digest whole _ ih =>
    rcases List.mem_cons.mp mem with e | mem
    · simp at e
    · obtain ⟨s', mem, fills⟩ := ih mem
      exact ⟨s', List.mem_append_right _ mem, fills⟩

/-- Each way to fill in the parts of a tree comes from a way to fill in the tree. -/
theorem exists_fills {t : HashTree} {ts : List HashTree} (h : FillsRow t.parts ts) :
    ∃ s, Fills t s ∧ s.parts = ts := by
  induction t generalizing ts with
  | empty =>
    cases h
    exact ⟨.empty, .empty, rfl⟩
  | fork left right ihl ihr =>
    obtain ⟨as, bs, rfl, ha, hb⟩ := of_append h
    obtain ⟨l, fills_left, rfl⟩ := ihl ha
    obtain ⟨r, fills_right, rfl⟩ := ihr hb
    exact ⟨.fork l r, .fork fills_left fills_right, rfl⟩
  | labeled label s =>
    obtain _ | ⟨_, subtree, ⟨⟩⟩ := h
    exact ⟨_, .labeled label subtree, rfl⟩
  | leaf value =>
    obtain _ | _ | ⟨_, ⟨⟩⟩ := h
    exact ⟨_, .leaf value, rfl⟩
  | pruned digest =>
    obtain _ | _ | _ | ⟨_, whole, ⟨⟩⟩ := h
    exact ⟨_, .pruned digest whole, (List.append_nil _).symm⟩

end FillsRow

/-- What fills a tree fills in its parts. -/
theorem Fills.parts {t s : HashTree} (h : Fills t s) : FillsRow t.parts s.parts := by
  induction h with
  | empty => exact .nil
  | fork _ _ left right => exact left.append right
  | labeled label subtree _ => exact .labeled label subtree .nil
  | leaf value => exact .leaf value .nil
  | pruned digest whole =>
    have filled := FillsRow.pruned digest whole .nil
    rwa [List.append_nil] at filled

/-! ### The hollow completion -/

/-- The tree with nothing in the places of its pruned parts. -/
def hollow : HashTree → HashTree
  | .empty => .empty
  | .fork left right => .fork left.hollow right.hollow
  | .labeled label subtree => .labeled label subtree.hollow
  | .leaf value => .leaf value
  | .pruned _ => .empty

/-- The parts that are left with nothing in the places of those that were pruned. -/
def hollowRow : List HashTree → List HashTree
  | [] => []
  | .pruned _ :: rest => hollowRow rest
  | t :: rest => t.hollow :: hollowRow rest

/-- The hollow form of a tree fills it. -/
theorem fills_hollow (t : HashTree) : Fills t t.hollow := by
  induction t with
  | empty => exact .empty
  | fork _ _ left right => exact .fork left right
  | labeled label _ subtree => exact .labeled label subtree
  | leaf value => exact .leaf value
  | pruned digest => exact .pruned digest trivial

/-- The hollow form of a row fills it in. -/
theorem fillsRow_hollowRow {ts : List HashTree} (row : ∀ t ∈ ts, IsEntry t) :
    FillsRow ts (hollowRow ts) := by
  induction ts with
  | nil => exact .nil
  | cons t ts ih =>
    have rest := ih fun t mem => row t (List.mem_cons_of_mem _ mem)
    cases row t List.mem_cons_self with
    | labeled label subtree => exact .labeled label (fills_hollow subtree) rest
    | pruned digest => exact .pruned (s := .empty) digest trivial rest

/-- The hollow form of a row shows the same labels. -/
@[simp] theorem labels_hollowRow (ts : List HashTree) : labels (hollowRow ts) = labels ts := by
  induction ts with
  | nil => rfl
  | cons t ts ih => cases t <;> simp [hollowRow, hollow, labels, ih]

/-- Only what has a label is left of a row. -/
theorem mem_hollowRow {ts : List HashTree} (row : ∀ t ∈ ts, IsEntry t) {s : HashTree}
    (mem : s ∈ hollowRow ts) :
    ∃ label subtree, .labeled label subtree ∈ ts ∧ s = .labeled label subtree.hollow := by
  induction ts with
  | nil => exact absurd mem List.not_mem_nil
  | cons t ts ih =>
    have later := ih fun t mem => row t (List.mem_cons_of_mem _ mem)
    cases row t List.mem_cons_self with
    | labeled label subtree =>
      rcases List.mem_cons.mp mem with rfl | mem
      · exact ⟨label, subtree, List.mem_cons_self, rfl⟩
      · obtain ⟨l, s', mem, e⟩ := later mem
        exact ⟨l, s', List.mem_cons_of_mem _ mem, e⟩
    | pruned digest =>
      obtain ⟨l, s', mem, e⟩ := later mem
      exact ⟨l, s', List.mem_cons_of_mem _ mem, e⟩

/-- The parts of the hollow form of a fork are the hollow forms of its parts. -/
theorem parts_hollow {t : HashTree} : t.hollow.parts = hollowRow t.parts := by
  have append (as bs : List HashTree) : hollowRow (as ++ bs) = hollowRow as ++ hollowRow bs := by
    induction as with
    | nil => rfl
    | cons t as ih => cases t <;> simp [hollowRow, ih]
  induction t with
  | fork left right ihl ihr => rw [hollow, parts, parts, append, ihl, ihr]
  | _ => rfl

/-- The hollow form of a well-formed tree is well formed. -/
theorem WellFormed.hollow {t : HashTree} (formed : t.WellFormed) : t.hollow.WellFormed := by
  induction t with
  | empty | leaf | pruned => trivial
  | labeled label subtree ih => exact ih formed
  | fork left right ihl ihr =>
    obtain ⟨row, left_formed, right_formed⟩ := formed
    refine ⟨⟨?_, ?_⟩, ihl left_formed, ihr right_formed⟩
    · intro t mem
      rw [← HashTree.hollow, parts_hollow] at mem
      obtain ⟨label, subtree, _, rfl⟩ := mem_hollowRow row.entries mem
      exact .labeled label _
    · rw [← HashTree.hollow, parts_hollow, labels_hollowRow]
      exact row.increasing

/-- A well-formed tree has a completion. -/
theorem completion_hollow {t : HashTree} (formed : t.WellFormed) : Completion t t.hollow :=
  ⟨fills_hollow t, formed.hollow⟩

/-! ### Completing one part -/

/-- A subtree of a completion completes the subtree under the same label. -/
theorem Completion.subtree {t s : HashTree} (c : Completion t s) {label : Bytes}
    {s₁ s₂ : HashTree} (below : .labeled label s₁ ∈ t.parts)
    (above : .labeled label s₂ ∈ s.parts) : Completion s₁ s₂ := by
  -- What fills in the subtree has its label, which only one part of the completion has.
  obtain ⟨s', mem, fills⟩ := c.fills.parts.exists_mem below
  obtain rfl := (c.formed.row_of_mem above).eq_of_mem above mem
  exact ⟨fills, c.formed.subtree above⟩

/-- A row with one part filled in and nothing in the places of the others that were pruned comes
from a completion, when the labels around it leave room for those of that part. -/
theorem exists_completion {t : HashTree} (formed : t.WellFormed) {as bs fill : List HashTree}
    {part : HashTree} (cut : t.parts = as ++ part :: bs) (row : Row t.parts)
    (filled : FillsRow [part] fill) (entries : ∀ t ∈ fill, IsEntry t)
    (subtrees : ∀ label subtree, .labeled label subtree ∈ fill → subtree.WellFormed)
    (increasing : (labels as ++ (labels fill ++ labels bs)).Pairwise
      fun a b => a.before b = true) :
    ∃ s, Completion t s ∧ ∀ u ∈ fill, u ∈ s.parts := by
  have all : ∀ u ∈ as ++ part :: bs, IsEntry u := cut ▸ row.entries
  have left : ∀ u ∈ as, IsEntry u := fun u mem => all u (List.mem_append_left _ mem)
  have right : ∀ u ∈ bs, IsEntry u := fun u mem =>
    all u (List.mem_append_right _ (List.mem_cons_of_mem _ mem))
  -- The parts around the one that is filled in are made hollow.
  have fills : FillsRow t.parts (hollowRow as ++ (fill ++ hollowRow bs)) := by
    rw [cut]
    exact (fillsRow_hollowRow left).append (filled.append (fillsRow_hollowRow right))
  obtain ⟨s, fills, parts⟩ := fills.exists_fills
  -- What is not filled in comes from a label of the tree.
  have kept {u : HashTree} (mem : u ∈ hollowRow as ∨ u ∈ hollowRow bs) :
      ∃ label subtree, .labeled label subtree ∈ t.parts ∧ u = .labeled label subtree.hollow := by
    rw [cut]
    rcases mem with mem | mem
    · obtain ⟨label, subtree, mem, e⟩ := mem_hollowRow left mem
      exact ⟨label, subtree, List.mem_append_left _ mem, e⟩
    · obtain ⟨label, subtree, mem, e⟩ := mem_hollowRow right mem
      exact ⟨label, subtree, List.mem_append_right _ (List.mem_cons_of_mem _ mem), e⟩
  have member {u : HashTree} (mem : u ∈ s.parts) :
      u ∈ fill ∨ u ∈ hollowRow as ∨ u ∈ hollowRow bs := by
    rw [parts, List.mem_append, List.mem_append] at mem
    exact mem.elim (fun m => .inr (.inl m)) fun m => m.imp_right .inr
  -- Hollow rows show the labels of the rows they come from, so the order is the one that is given.
  have whole_row : Row s.parts := by
    refine ⟨?_, ?_⟩
    · intro u mem
      rcases member mem with mem | mem
      · exact entries u mem
      · obtain ⟨label, subtree, _, rfl⟩ := kept mem
        exact .labeled label _
    · rw [parts, labels_append, labels_append, labels_hollowRow, labels_hollowRow]
      exact increasing
  refine ⟨s, ⟨fills, wellFormed_of_parts whole_row ?_⟩, ?_⟩
  · intro label subtree mem
    rcases member mem with mem | mem
    · exact subtrees label subtree mem
    · obtain ⟨l, s', below, e⟩ := kept mem
      rw [(HashTree.labeled.inj e).2]
      exact (formed.subtree below).hollow
  · intro u mem
    rw [parts]
    exact List.mem_append_right _ (List.mem_append_left _ mem)

end CertifiedCalls.HashTree
