import CertifiedCalls.Proofs.Certificate.Completion

/-! # What a look-up proves
A label is excluded from a row exactly where the row can be **cut** between two neighbours that are
still there, one before the label and one after it (`excludes_iff`); where it is not excluded, the
label fits in the place of a pruned part (`excludes_or_gap`). So the outcome of a look-up in a
well-formed tree says what holds in every completion of the tree (`lookup_iff_completions`). -/

namespace CertifiedCalls.HashTree

/-! ### Cuts -/

/-- Parts end **below** a label when there are none or the last one has a label before it. -/
def EndsBelow (label : Bytes) (ts : List HashTree) : Prop :=
  ts = [] ∨ ∃ front l s, ts = front ++ [.labeled l s] ∧ l.before label = true

/-- Parts start **above** a label when there are none or the first one has a label after it. -/
def StartsAbove (label : Bytes) (ts : List HashTree) : Prop :=
  ts = [] ∨ ∃ l s rest, ts = .labeled l s :: rest ∧ label.before l = true

/-- A **cut** of a row at a label: the parts before it end below the label, those after it start
above. -/
structure Cut (label : Bytes) (ts as bs : List HashTree) : Prop where
  /-- The two groups are the row. -/
  whole : ts = as ++ bs
  /-- The first group ends below the label. -/
  below : EndsBelow label as
  /-- The second group starts above it. -/
  above : StartsAbove label bs

/-- Labels pass between two neighbours that leave no room for them. -/
theorem passesBetween_iff {label : Bytes} {ts : List HashTree} :
    passesBetween label ts = true ↔
      ∃ front l s r t rest, ts = front ++ .labeled l s :: .labeled r t :: rest ∧
        l.before label = true ∧ label.before r = true := by
  constructor
  · intro h
    fun_induction passesBetween label ts with
    | case1 l s r t rest ih =>
      rw [Bool.or_eq_true, Bool.and_eq_true] at h
      rcases h with ⟨low, high⟩ | later
      · exact ⟨[], l, s, r, t, rest, rfl, low, high⟩
      · obtain ⟨front, l', s', r', t', rest', e, bounds⟩ := ih later
        exact ⟨.labeled l s :: front, l', s', r', t', rest', by rw [e, List.cons_append], bounds⟩
    | case2 u rest _ ih =>
      obtain ⟨front, l', s', r', t', rest', e, bounds⟩ := ih h
      exact ⟨u :: front, l', s', r', t', rest', by rw [e, List.cons_append], bounds⟩
    | case3 => simp at h
  · rintro ⟨front, l, s, r, t, rest, rfl, low, high⟩
    induction front with
    | nil =>
      rw [List.nil_append, passesBetween, low, high]
      rfl
    | cons u front ih =>
      -- One more part in front may be one of two neighbours, but takes nothing from the rest.
      have onwards (us : List HashTree) (h : passesBetween label us = true) :
          passesBetween label (u :: us) = true := by
        cases us with
        | nil => simp [passesBetween] at h
        | cons w us =>
          cases u with
          | labeled =>
            cases w with
            | labeled => rw [passesBetween, h, Bool.or_true]
            | _ => exact h
          | _ => exact h
      exact onwards _ ih

/-- Outside a lone leaf, a label is excluded exactly where the row can be cut at it. -/
theorem excludes_iff {label : Bytes} {ts : List HashTree} (entries : ∀ t ∈ ts, IsEntry t) :
    excludes label ts = true ↔ ∃ as bs, Cut label ts as bs := by
  -- A row is never a lone leaf, so only the three tests are left.
  have unfolded (ne : ts ≠ []) : excludes label ts
      = (precedesFirst label ts || followsLast label ts || passesBetween label ts) := by
    cases ts with
    | nil => exact absurd rfl ne
    | cons t rest =>
      cases entries t List.mem_cons_self <;> rfl
  constructor
  · intro h
    by_cases none : ts = []
    · exact ⟨[], [], none, .inl rfl, .inl rfl⟩
    · rw [unfolded none, Bool.or_eq_true, Bool.or_eq_true] at h
      -- The label comes before all parts, after all of them, or between two.
      rcases h with (first | last) | between
      · cases ts with
        | nil => exact absurd rfl none
        | cons t rest =>
          cases t with
          | labeled l s => exact ⟨[], _, rfl, .inl rfl, .inr ⟨l, s, rest, rfl, first⟩⟩
          | _ => simp [precedesFirst] at first
      · obtain ⟨front, t, rfl⟩ : ∃ front t, ts = front ++ [t] :=
          ⟨_, _, (List.dropLast_concat_getLast none).symm⟩
        rw [followsLast, List.getLast?_concat] at last
        cases t with
        | labeled l s =>
          exact ⟨_, [], (List.append_nil _).symm, .inr ⟨front, l, s, rfl, last⟩, .inl rfl⟩
        | _ => simp at last
      · obtain ⟨front, l, s, r, t, rest, rfl, low, high⟩ := passesBetween_iff.mp between
        exact ⟨front ++ [.labeled l s], .labeled r t :: rest, by rw [List.append_assoc]; rfl,
          .inr ⟨front, l, s, rfl, low⟩, .inr ⟨r, t, rest, rfl, high⟩⟩
  · rintro ⟨as, bs, rfl, below, above⟩
    rcases below with rfl | ⟨front, l, s, rfl, low⟩
    · rcases above with rfl | ⟨r, t, rest, rfl, high⟩
      · rfl
      · rw [unfolded (List.cons_ne_nil _ _), precedesFirst, List.nil_append, List.head?_cons]
        simp only [high, Bool.true_or]
    · rcases above with rfl | ⟨r, t, rest, rfl, high⟩
      · rw [unfolded (by simp), followsLast, List.append_nil, List.getLast?_concat]
        simp only [low, Bool.or_true, Bool.true_or]
      · have between : passesBetween label (front ++ [.labeled l s] ++ .labeled r t :: rest) = true :=
          passesBetween_iff.mpr ⟨front, l, s, r, t, rest, by rw [List.append_assoc]; rfl, low, high⟩
        rw [unfolded (by simp), between, Bool.or_true]

/-- A label that cannot be seen in a row is excluded, or the place where it would stand is that of
a pruned part. -/
theorem excludes_or_gap {label : Bytes} {ts : List HashTree} (row : Row ts)
    (missing : label ∉ labels ts) :
    excludes label ts = true ∨
      ∃ as digest bs, ts = as ++ .pruned digest :: bs ∧ (∀ l ∈ labels as, l.before label = true) ∧
        ∀ l ∈ labels bs, label.before l = true := by
  rw [excludes_iff row.entries]
  induction ts with
  | nil => exact .inl ⟨[], [], rfl, .inl rfl, .inl rfl⟩
  | cons t rest ih =>
    have later : Row rest := row.tail
    cases row.entries t List.mem_cons_self with
    | labeled l s =>
      rw [labels, List.mem_cons, not_or] at missing
      -- A label after the one looked for cuts the row here; one before it leaves the rest to be cut.
      rcases Bytes.before_or_eq_or_before label l with high | rfl | low
      · exact .inl ⟨[], _, rfl, .inl rfl, .inr ⟨l, s, rest, rfl, high⟩⟩
      · exact absurd rfl missing.1
      · rcases ih later missing.2 with ⟨as, bs, rfl, below, above⟩ | ⟨as, digest, bs, rfl, low', high⟩
        -- The cut of the rest is one of the whole row; the first part ends its front if nothing else does.
        · refine .inl ⟨.labeled l s :: as, bs, rfl, ?_, above⟩
          rcases below with rfl | ⟨front, l', s', rfl, low'⟩
          · exact .inr ⟨[], l, s, rfl, low⟩
          · exact .inr ⟨.labeled l s :: front, l', s', rfl, low'⟩
        · exact .inr ⟨.labeled l s :: as, digest, bs, rfl, List.forall_mem_cons.mpr ⟨low, low'⟩, high⟩
    | pruned digest =>
      rcases ih later missing with ⟨as, bs, rfl, below, above⟩ | ⟨as, digest', bs, rfl, low, high⟩
      -- A cut right behind a pruned part is none: the label may be in that part.
      · rcases below with rfl | ⟨front, l, s, rfl, low⟩
        · refine .inr ⟨[], digest, bs, rfl, List.forall_mem_nil _, ?_⟩
          rcases above with rfl | ⟨r, t, rest, rfl, high⟩
          · exact List.forall_mem_nil _
          · intro l mem
            rcases List.mem_cons.mp mem with rfl | mem
            · exact high
            · have increasing := later.increasing
              rw [List.nil_append, labels, List.pairwise_cons] at increasing
              exact Bytes.before_trans high (increasing.1 l mem)
        · exact .inl ⟨.pruned digest :: (front ++ [.labeled l s]), bs, rfl,
            .inr ⟨.pruned digest :: front, l, s, rfl, low⟩, above⟩
      · exact .inr ⟨.pruned digest :: as, digest', bs, rfl, low, high⟩

/-! ### Searching for a label -/

/-- A label that a row excludes is not among what fills the row in. -/
theorem not_mem_labels_of_cut {label : Bytes} {ts ts' as bs : List HashTree}
    (cut : Cut label ts as bs) (fills : FillsRow ts ts') (row : Row ts') : label ∉ labels ts' := by
  obtain ⟨rfl, below, above⟩ := cut
  obtain ⟨as', bs', rfl, left, right⟩ := fills.of_append
  -- What fills in each group stays on its side of the cut.
  have increasing := row.increasing
  rw [labels_append, List.pairwise_append] at increasing
  obtain ⟨left_increasing, right_increasing, across⟩ := increasing
  rw [labels_append, List.mem_append, not_or]
  constructor
  · intro mem
    rcases below with rfl | ⟨front, l, s, rfl, low⟩
    · cases left
      exact absurd mem List.not_mem_nil
    · -- The last label of the group is before the label, and no label of the group is after it.
      obtain ⟨front', last, rfl, _, filled⟩ := left.of_append
      obtain _ | ⟨_, _, ⟨⟩⟩ := filled
      rw [labels_append, List.mem_append] at mem
      rw [labels_append, List.pairwise_append] at left_increasing
      rcases mem with mem | mem
      · have later := left_increasing.2.2 label mem l List.mem_cons_self
        exact Bytes.before_irrefl l (Bytes.before_trans low later)
      · obtain rfl := List.mem_singleton.mp mem
        exact Bytes.before_irrefl label low
  · intro mem
    rcases above with rfl | ⟨r, t, rest, rfl, high⟩
    · cases right
      exact absurd mem List.not_mem_nil
    · obtain _ | ⟨_, _, _⟩ := right
      rw [labels, List.pairwise_cons] at right_increasing
      rcases List.mem_cons.mp mem with rfl | mem
      · exact Bytes.before_irrefl label high
      · have earlier := right_increasing.1 label mem
        exact Bytes.before_irrefl label (Bytes.before_trans high earlier)

/-- The subtree that the search found belongs to a part with the label. -/
theorem mem_parts_of_search_eq_found {t subtree : HashTree} {label : Bytes}
    (found : t.search label = .found subtree) : .labeled label subtree ∈ t.parts := by
  rw [search] at found
  split at found
  · rename_i here
    obtain rfl := LabelSearch.found.inj found
    exact mem_of_subtreeOf?_eq_some here
  · split at found <;> simp at found

/-- Where the search came out **unknown**, the label cannot be seen. -/
theorem not_mem_labels_of_search_eq_unknown {t : HashTree} {label : Bytes}
    (unknown : t.search label = .unknown) : label ∉ labels t.parts := by
  rw [search] at unknown
  split at unknown
  · simp at unknown
  · rename_i missing
    exact not_mem_labels_of_subtreeOf?_eq_none missing

/-- No completion of a tree has a label for which the search of the tree came out **absent**. -/
theorem not_mem_parts_of_search_eq_absent {t s : HashTree} (formed : t.WellFormed) {label : Bytes}
    (absent : t.search label = .absent) (c : Completion t s) (subtree : HashTree) :
    .labeled label subtree ∉ s.parts := by
  intro mem
  rw [search] at absent
  by_cases leaf : ∃ value, t = .leaf value
  · obtain ⟨value, rfl⟩ := leaf
    cases c.fills
    simp [parts] at mem
  · have row := formed.row fun value e => leaf ⟨value, e⟩
    split at absent
    · simp at absent
    · split at absent
      · rename_i excluded
        obtain ⟨as, bs, cut⟩ := (excludes_iff row.entries).mp excluded
        exact not_mem_labels_of_cut cut c.fills.parts (c.formed.row_of_mem mem)
          (mem_labels_iff.mpr ⟨subtree, mem⟩)
      · simp at absent

/-- A subtree that the search **found** can be completed in any way. -/
theorem exists_completion_of_search_eq_found {t : HashTree} (formed : t.WellFormed) {label : Bytes}
    {subtree s : HashTree} (found : t.search label = .found subtree) (c : Completion subtree s) :
    ∃ s', Completion t s' ∧ .labeled label s ∈ s'.parts := by
  have mem := mem_parts_of_search_eq_found found
  have row := formed.row_of_mem mem
  obtain ⟨as, bs, cut⟩ := List.append_of_mem mem
  have increasing := row.increasing
  rw [cut, labels_append, labels] at increasing
  obtain ⟨s', completion, kept⟩ := exists_completion formed cut row
    (.labeled label c.fills .nil)
    (fun u mem => List.mem_singleton.mp mem ▸ .labeled label s)
    (fun l u mem => by
      obtain ⟨rfl, rfl⟩ := HashTree.labeled.inj (List.mem_singleton.mp mem)
      exact c.formed)
    increasing
  exact ⟨s', completion, kept _ List.mem_cons_self⟩

/-- Where the search came out **unknown**, any whole tree may be under the label. -/
theorem exists_completion_of_search_eq_unknown {t : HashTree} (formed : t.WellFormed)
    {label : Bytes} (unknown : t.search label = .unknown) {s : HashTree} (whole : s.Whole)
    (s_formed : s.WellFormed) : ∃ s', Completion t s' ∧ .labeled label s ∈ s'.parts := by
  have missing := not_mem_labels_of_search_eq_unknown unknown
  have kept : ¬ excludes label t.parts = true := by
    intro excluded
    rw [search, excluded] at unknown
    split at unknown <;> simp at unknown
  have inner (value : Bytes) : t ≠ .leaf value := by
    rintro rfl
    exact kept rfl
  have row := formed.row inner
  rcases excludes_or_gap row missing with excluded | ⟨as, digest, bs, cut, low, high⟩
  · exact absurd excluded kept
  · have increasing := row.increasing
    rw [cut, labels_append, labels_pruned, List.pairwise_append] at increasing
    obtain ⟨left, right, across⟩ := increasing
    have fill : FillsRow [.pruned digest] [.labeled label s] :=
      .pruned (s := .labeled label s) digest whole .nil
    have ordered : (labels as ++ (labels [.labeled label s] ++ labels bs)).Pairwise
        fun a b => a.before b = true := by
      refine List.pairwise_append.mpr ⟨left, List.pairwise_cons.mpr ⟨high, right⟩, ?_⟩
      intro a mem b mem'
      rcases List.mem_cons.mp mem' with rfl | mem'
      · exact low a mem
      · exact across a mem b mem'
    obtain ⟨s', completion, kept⟩ := exists_completion formed cut row fill
      (fun u mem => List.mem_singleton.mp mem ▸ .labeled label s)
      (fun l u mem => by
        obtain ⟨rfl, rfl⟩ := HashTree.labeled.inj (List.mem_singleton.mp mem)
        exact s_formed)
      ordered
    exact ⟨s', completion, kept _ List.mem_cons_self⟩

/-- No label is left in the hollow completion for which the search came out **unknown**. -/
theorem not_mem_parts_hollow_of_search_eq_unknown {t : HashTree} {label : Bytes}
    (unknown : t.search label = .unknown) (subtree : HashTree) :
    .labeled label subtree ∉ t.hollow.parts := by
  intro mem
  apply not_mem_labels_of_search_eq_unknown unknown
  rw [← labels_hollowRow, ← parts_hollow]
  exact mem_labels_iff.mpr ⟨subtree, mem⟩

/-! ### Looking up a path -/

/-- The tree with one leaf, at the end of a path. -/
def onPath (value : Bytes) : List Bytes → HashTree
  | [] => .leaf value
  | label :: rest => .labeled label (onPath value rest)

/-- Nothing of a tree with one leaf was pruned. -/
theorem whole_onPath (value : Bytes) (path : List Bytes) : (onPath value path).Whole := by
  induction path with
  | nil => trivial
  | cons label rest ih => exact ih

/-- A tree with one leaf is well formed. -/
theorem wellFormed_onPath (value : Bytes) (path : List Bytes) :
    (onPath value path).WellFormed := by
  induction path with
  | nil => trivial
  | cons label rest ih => exact ih

/-- The leaf is at the end of the path. -/
theorem hasLeaf_onPath (value : Bytes) (path : List Bytes) :
    HasLeaf (onPath value path) path value := by
  induction path with
  | nil => exact .leaf value
  | cons label rest ih => exact .labeled ih

/-- A value that was **found** is a leaf of every completion. -/
theorem hasLeaf_of_lookup_eq_found {t : HashTree} (formed : t.WellFormed) {path : List Bytes}
    {value : Bytes} (found : t.lookup path = .found value) {s : HashTree} (c : Completion t s) :
    HasLeaf s path value := by
  induction path generalizing t s with
  | nil =>
    cases t with
    | leaf v =>
      obtain rfl := Lookup.found.inj found
      cases c.fills
      exact .leaf v
    | _ => simp [lookup, content] at found
  | cons label rest ih =>
    rw [lookup] at found
    split at found
    · rename_i subtree here
      have mem := mem_parts_of_search_eq_found here
      obtain ⟨s', above, _⟩ := c.fills.parts.exists_mem mem
      exact hasLeaf_cons_iff.mpr
        ⟨s', above, ih (formed.subtree mem) found (c.subtree mem above)⟩
    · simp at found
    · simp at found

/-- Where a look-up came out **absent** or with an **error**, no completion has a leaf. -/
theorem not_hasLeaf_of_lookup {t : HashTree} (formed : t.WellFormed) {path : List Bytes}
    (none : t.lookup path = .absent ∨ t.lookup path = .error) {s : HashTree} (c : Completion t s)
    (value : Bytes) : ¬ HasLeaf s path value := by
  intro leaf
  induction path generalizing t s with
  | nil =>
    obtain rfl := eq_leaf_of_hasLeaf_nil c.formed leaf
    -- Only a leaf and a pruned part can be filled in by a leaf.
    cases c.fills <;> simp [lookup, content] at none
  | cons label rest ih =>
    obtain ⟨s', above, leaf⟩ := hasLeaf_cons_iff.mp leaf
    rw [lookup] at none
    split at none
    · rename_i subtree here
      have mem := mem_parts_of_search_eq_found here
      exact ih (formed.subtree mem) none (c.subtree mem above) leaf
    · rename_i absent
      exact not_mem_parts_of_search_eq_absent formed absent c s' above
    · simp at none

/-- Where a look-up came out **unknown**, some completion has a leaf, of any value. -/
theorem exists_hasLeaf_of_lookup_eq_unknown {t : HashTree} (formed : t.WellFormed)
    {path : List Bytes} (unknown : t.lookup path = .unknown) (value : Bytes) :
    ∃ s, Completion t s ∧ HasLeaf s path value := by
  induction path generalizing t with
  | nil =>
    cases t with
    | pruned digest =>
      exact ⟨.leaf value, ⟨.pruned digest trivial, trivial⟩, .leaf value⟩
    | _ => simp [lookup, content] at unknown
  | cons label rest ih =>
    rw [lookup] at unknown
    split at unknown
    · rename_i subtree here
      have mem := mem_parts_of_search_eq_found here
      obtain ⟨s, c, leaf⟩ := ih (formed.subtree mem) unknown
      obtain ⟨s', c', above⟩ := exists_completion_of_search_eq_found formed here c
      exact ⟨s', c', hasLeaf_cons_iff.mpr ⟨s, above, leaf⟩⟩
    · simp at unknown
    · rename_i nowhere
      -- The pruned part is filled in by the label and, below it, by nothing but the leaf.
      obtain ⟨s', c', above⟩ := exists_completion_of_search_eq_unknown formed nowhere
        (whole_onPath value rest) (wellFormed_onPath value rest)
      exact ⟨s', c', hasLeaf_cons_iff.mpr ⟨_, above, hasLeaf_onPath value rest⟩⟩

/-- Where a look-up came out **unknown**, some completion has no leaf. -/
theorem exists_not_hasLeaf_of_lookup_eq_unknown {t : HashTree} (formed : t.WellFormed)
    {path : List Bytes} (unknown : t.lookup path = .unknown) :
    ∃ s, Completion t s ∧ ∀ value, ¬ HasLeaf s path value := by
  induction path generalizing t with
  | nil =>
    cases t with
    | pruned digest =>
      refine ⟨.empty, ⟨.pruned digest trivial, trivial⟩, fun value leaf => ?_⟩
      cases leaf
    | _ => simp [lookup, content] at unknown
  | cons label rest ih =>
    rw [lookup] at unknown
    split at unknown
    · rename_i subtree here
      have mem := mem_parts_of_search_eq_found here
      obtain ⟨s, c, bare⟩ := ih (formed.subtree mem) unknown
      obtain ⟨s', c', above⟩ := exists_completion_of_search_eq_found formed here c
      refine ⟨s', c', fun value leaf => ?_⟩
      obtain ⟨u, here, leaf⟩ := hasLeaf_cons_iff.mp leaf
      obtain rfl := (c'.formed.row_of_mem above).eq_of_mem above here
      exact bare value leaf
    · simp at unknown
    · rename_i nowhere
      refine ⟨t.hollow, completion_hollow formed, fun value leaf => ?_⟩
      obtain ⟨u, here, _⟩ := hasLeaf_cons_iff.mp leaf
      exact not_mem_parts_hollow_of_search_eq_unknown nowhere u here

/-- **A look-up says what the tree proves.** In a well-formed tree a value is found exactly when it
is the leaf of every completion, absence and errors mean that no completion has a leaf, and the
outcome is unknown exactly when one completion has a leaf and another has none. -/
theorem lookup_iff_completions {t : HashTree} (formed : t.WellFormed) (path : List Bytes) :
    (∀ value, t.lookup path = .found value ↔ ∀ s, Completion t s → HasLeaf s path value) ∧
    (t.lookup path = .absent ∨ t.lookup path = .error →
      ∀ s, Completion t s → ∀ value, ¬ HasLeaf s path value) ∧
    (t.lookup path = .unknown ↔
      (∃ s, Completion t s ∧ ∃ value, HasLeaf s path value) ∧
        ∃ s, Completion t s ∧ ∀ value, ¬ HasLeaf s path value) := by
  have found {value : Bytes} (h : t.lookup path = .found value) (s : HashTree)
      (c : Completion t s) : HasLeaf s path value := hasLeaf_of_lookup_eq_found formed h c
  have none (h : t.lookup path = .absent ∨ t.lookup path = .error) (s : HashTree)
      (c : Completion t s) (value : Bytes) : ¬ HasLeaf s path value :=
    not_hasLeaf_of_lookup formed h c value
  refine ⟨fun value => ⟨found, fun all => ?_⟩, none, fun h => ⟨?_, ?_⟩, ?_⟩
  -- The hollow completion has the leaf too, which leaves no other outcome.
  · have leaf := all t.hollow (completion_hollow formed)
    cases h : t.lookup path with
    | found other =>
      have also := found h t.hollow (completion_hollow formed)
      rw [also.unique formed.hollow leaf]
    | absent => exact absurd leaf (none (.inl h) t.hollow (completion_hollow formed) value)
    | error => exact absurd leaf (none (.inr h) t.hollow (completion_hollow formed) value)
    | unknown =>
      obtain ⟨s, c, bare⟩ := exists_not_hasLeaf_of_lookup_eq_unknown formed h
      exact absurd (all s c) (bare value)
  · obtain ⟨s, c, leaf⟩ := exists_hasLeaf_of_lookup_eq_unknown formed h []
    exact ⟨s, c, [], leaf⟩
  · exact exists_not_hasLeaf_of_lookup_eq_unknown formed h
  · rintro ⟨⟨s, c, value, leaf⟩, ⟨s', c', bare⟩⟩
    cases h : t.lookup path with
    | found other => exact absurd (found h s' c') (bare other)
    | absent => exact absurd leaf (none (.inl h) s c value)
    | error => exact absurd leaf (none (.inr h) s c value)
    | unknown => rfl

/-- The look-up of a label between two others, next to a pruned part: it may be there or not. -/
theorem lookup_iff_completions_fork :
    ((∃ s, Completion (.fork (.labeled [1] (.leaf [7])) (.fork (.pruned [0]) (.labeled [3] .empty)))
          s ∧ ∃ value, HasLeaf s [[2]] value) ∧
      ∃ s, Completion (.fork (.labeled [1] (.leaf [7])) (.fork (.pruned [0]) (.labeled [3] .empty)))
          s ∧ ∀ value, ¬ HasLeaf s [[2]] value) ∧
      ∀ s, Completion (.fork (.labeled [1] (.leaf [7])) (.fork (.pruned [0]) (.labeled [3] .empty)))
          s → HasLeaf s [[1]] [7] := by
  have entries : ∀ u ∈ [HashTree.labeled [1] (.leaf [7]), .pruned [0], .labeled [3] .empty],
      IsEntry u := by
    intro u mem
    rcases List.mem_cons.mp mem with rfl | mem
    · exact .labeled _ _
    · rcases List.mem_cons.mp mem with rfl | mem
      · exact .pruned _
      · exact List.mem_singleton.mp mem ▸ .labeled _ _
  have formed : (HashTree.fork (.labeled [1] (.leaf [7]))
      (.fork (.pruned [0]) (.labeled [3] .empty))).WellFormed :=
    ⟨⟨entries, by decide⟩, trivial,
      ⟨fun u mem => entries u (List.mem_cons_of_mem _ mem), by decide⟩, trivial, trivial⟩
  exact ⟨(lookup_iff_completions formed [[2]]).2.2.mp (by decide),
    ((lookup_iff_completions formed [[1]]).1 [7]).mp (by decide)⟩

end CertifiedCalls.HashTree
