import CertifiedCalls.Proofs.Text.Letters
import Mathlib

/-! # What phrases read
A phrase **reads** a language: it takes a text of the language from the front of a text, and it takes
every such text where what follows cannot be taken as well (`Reads`). Phrases one after the other read
the product of their languages, and phrases of which the first that fits is taken read their sum, if
the earlier ones **pass over** the languages of the later ones. -/

namespace CertifiedCalls.Text

variable {cs front rest : List Char} {c m : Char} {w v : String} {p : Phrase} {ps : List Phrase}
  {L M : Language Char} {B C : List Char → Prop}

/-! ### Languages -/

/-- The texts that **spell** a word, in any letter case. -/
def spelling (w : String) : Language Char := {cs : List Char | cs.map foldCase = w.toList}

/-- Any number of blanks. -/
def spacing : Language Char := {cs : List Char | ∀ c ∈ cs, isBlank c}

/-- At least one blank. -/
def someSpacing : Language Char := {cs : List Char | cs ≠ [] ∧ ∀ c ∈ cs, isBlank c}

/-- A single character. -/
def single (m : Char) : Language Char := {cs : List Char | cs = [m]}

/-- A text is **unspaced** when it does not begin with a blank. -/
def Unspaced (cs : List Char) : Prop := ∀ c ∈ cs.head?, ¬ isBlank c

/-- A language **opens** with a word when all its texts begin with a spelling of the word. -/
def Opens (L : Language Char) (w : String) : Prop := ∀ cs ∈ L, w.toList <+: cs.map foldCase

/-- Two words **differ** when neither begins with the other. -/
def Differ (v w : String) : Prop := ¬ v.toList <+: w.toList ∧ ¬ w.toList <+: v.toList

instance (v w : String) : Decidable (Differ v w) :=
  inferInstanceAs (Decidable (¬ v.toList <+: w.toList ∧ ¬ w.toList <+: v.toList))

/-- The spellings of a word open with it. -/
theorem opens_spelling (w : String) : Opens (spelling w) w := fun cs (spelt : cs.map foldCase = _) =>
  spelt ▸ List.prefix_rfl

/-- What opens with a word still does when more follows. -/
theorem Opens.mul (h : Opens L w) : Opens (L * M) w := by
  rintro _ ⟨front, mem, back, -, rfl⟩
  rw [List.map_append]
  exact (h front mem).trans (List.prefix_append _ _)

/-! ### Spans -/

/-- What follows characters with a property, up to one without it. -/
theorem dropWhile_append {q : Char → Bool} (all : ∀ c ∈ front, q c)
    (stops : ∀ c ∈ rest.head?, ¬ q c) : (front ++ rest).dropWhile q = rest := by
  rw [List.dropWhile_append_of_pos all]
  cases rest with
  | nil => rfl
  | cons c rest => exact List.dropWhile_cons_of_neg (stops c rfl)

/-- Characters with a property, up to one without it. -/
theorem takeWhile_append {q : Char → Bool} (all : ∀ c ∈ front, q c)
    (stops : ∀ c ∈ rest.head?, ¬ q c) : (front ++ rest).takeWhile q = front := by
  have whole : (front ++ rest).takeWhile q ++ (front ++ rest).dropWhile q = front ++ rest :=
    List.takeWhile_append_dropWhile
  rw [dropWhile_append all stops] at whole
  exact List.append_cancel_right whole

/-- What follows all characters with a property begins with one without it. -/
theorem not_of_mem_head?_dropWhile {q : Char → Bool} (mem : c ∈ (cs.dropWhile q).head?) : ¬ q c := by
  have stops := List.head?_dropWhile_not q cs
  rw [Option.mem_def.mp mem] at stops
  exact Bool.not_eq_true _ ▸ stops

/-! ### Reading -/

/-- A phrase **reads** a language, in front of texts with a given property. -/
structure Reads (p : Phrase) (L : Language Char) (B : List Char → Prop) : Prop where
  /-- What it takes is a text of the language. -/
  sound : ∀ {cs rest}, p cs = some rest → ∃ front ∈ L, front ++ rest = cs
  /-- It takes every text of the language. -/
  complete : ∀ {front rest}, front ∈ L → B rest → p (front ++ rest) = some rest

/-- A phrase **passes over** a language when no text begins with both. -/
def PassesOver (p : Phrase) (L : Language Char) : Prop := ∀ front ∈ L, ∀ rest, p (front ++ rest) = none

/-- A language is **unspaced** in front of texts with a given property. -/
def UnspacedBefore (L : Language Char) (B : List Char → Prop) : Prop :=
  ∀ front ∈ L, ∀ rest, B rest → Unspaced (front ++ rest)

/-- What opens with a word is unspaced. -/
theorem Opens.unspaced (h : Opens L w) (letter : w.toList.head?.any fun l => !isBlank l) :
    UnspacedBefore L B := by
  intro front mem rest _ c first
  obtain ⟨l, initial, plain⟩ := (Option.any_eq_true _ _).mp letter
  obtain ⟨tail, spelt⟩ := h front mem
  cases front with
  | nil =>
    rw [List.map_nil, List.append_eq_nil_iff] at spelt
    simp [spelt.1] at initial
  | cons c' front =>
    obtain rfl : c' = c := by simpa using first
    -- The word begins with the folded first character, which is blank only if the character is.
    have same : l = foldCase c' := by
      have heads := congrArg List.head? spelt
      rw [List.head?_append, initial] at heads
      simpa using heads
    rw [← isBlank_foldCase, ← same, Bool.not_eq_true]
    exact (Bool.not_eq_true' _).mp plain

/-- The spellings of a word are read by it, whatever follows. -/
theorem reads_letters (ls : List Char) :
    Reads (letters ls) {cs : List Char | cs.map foldCase = ls} B where
  sound := by
    intro cs rest h
    induction ls generalizing cs with
    | nil =>
      cases h
      exact ⟨[], rfl, rfl⟩
    | cons l ls ih =>
      cases cs with
      | nil => cases h
      | cons c cs =>
        rw [letters] at h
        split at h
        · rename_i same
          obtain ⟨front, spelt, rfl⟩ := ih h
          exact ⟨c :: front, congrArg₂ List.cons same spelt, rfl⟩
        · cases h
  complete := by
    rintro front rest rfl -
    induction front with
    | nil => rfl
    | cons c front ih =>
      rw [List.map_cons, List.cons_append, letters, if_pos rfl]
      exact ih

theorem reads_word (w : String) : Reads (word w) (spelling w) B := reads_letters w.toList

/-- A word passes over what opens with one that differs from it. -/
theorem Opens.passesOver (h : Opens L w) (differ : Differ v w) : PassesOver (word v) L := by
  intro front mem rest
  refine Option.eq_none_iff_forall_ne_some.mpr fun rest' taken => ?_
  obtain ⟨front', spelt, same⟩ := (reads_word (B := fun _ => True) v).sound taken
  -- Both words begin the folded text, so that one of them begins the other.
  have here : v.toList <+: (front ++ rest).map foldCase := by
    rw [← same, List.map_append, show front'.map foldCase = v.toList from spelt]
    exact List.prefix_append _ _
  have there : w.toList <+: (front ++ rest).map foldCase := by
    rw [List.map_append]
    exact (h front mem).trans (List.prefix_append _ _)
  exact (List.prefix_or_prefix_of_prefix here there).elim differ.1 differ.2

/-- A gap reads any number of blanks, up to what is none. -/
theorem reads_gap : Reads gap spacing Unspaced where
  sound := by
    rintro cs _ ⟨⟩
    exact ⟨cs.takeWhile isBlank, fun _ => List.mem_takeWhile_imp, List.takeWhile_append_dropWhile⟩
  complete := fun blank unspaced => congrArg some (dropWhile_append blank unspaced)

theorem reads_blanksOf : Reads blanksOf someSpacing Unspaced where
  sound := by
    intro cs rest h
    cases cs with
    | nil => cases h
    | cons c cs =>
      rw [blanksOf] at h
      split at h
      · rename_i blank
        cases h
        refine ⟨c :: cs.takeWhile isBlank, ⟨List.cons_ne_nil _ _, ?_⟩,
          congrArg (c :: ·) List.takeWhile_append_dropWhile⟩
        exact List.forall_mem_cons.mpr ⟨blank, fun _ => List.mem_takeWhile_imp⟩
      · cases h
  complete := by
    rintro front rest ⟨some, blank⟩ unspaced
    cases front with
    | nil => exact absurd rfl some
    | cons c front =>
      rw [List.forall_mem_cons] at blank
      rw [List.cons_append, blanksOf, if_pos blank.1, dropWhile_append blank.2 unspaced]

/-- A mark reads itself. -/
theorem reads_mark (m : Char) : Reads (mark m) (single m) B where
  sound := by
    intro cs rest h
    cases cs with
    | nil => cases h
    | cons c cs =>
      rw [mark] at h
      split at h
      · rename_i same
        cases h
        exact ⟨[c], congrArg (fun c => [c]) same, rfl⟩
      · cases h
  complete := by
    rintro _ rest rfl -
    exact if_pos rfl

theorem reads_inTurn_nil : Reads (inTurn []) 1 B where
  sound := by
    rintro cs _ ⟨⟩
    exact ⟨[], rfl, rfl⟩
  complete := by
    rintro _ rest rfl -
    rfl

/-- Phrases in turn read the product. -/
theorem Reads.cons (hp : Reads p L B) (hps : Reads (inTurn ps) M C)
    (meets : ∀ front ∈ M, ∀ rest, C rest → B (front ++ rest)) :
    Reads (inTurn (p :: ps)) (L * M) C where
  sound := by
    intro cs rest h
    obtain ⟨middle, taken, taken'⟩ := Option.bind_eq_some_iff.mp h
    obtain ⟨front, mem, rfl⟩ := hp.sound taken
    obtain ⟨back, mem', rfl⟩ := hps.sound taken'
    exact ⟨front ++ back, Language.append_mem_mul mem mem', List.append_assoc _ _ _⟩
  complete := by
    rintro _ rest ⟨front, mem, back, mem', rfl⟩ follows
    rw [List.append_assoc, inTurn, hp.complete mem (meets back mem' rest follows)]
    exact hps.complete mem' follows

/-- A phrase that reads its language in front of anything does so in front of other phrases. -/
theorem Reads.andThen (hp : Reads p L fun _ => True) (hps : Reads (inTurn ps) M C) :
    Reads (inTurn (p :: ps)) (L * M) C :=
  hp.cons hps fun _ _ _ _ => trivial

/-- The only phrase reads what it reads in turn. -/
theorem Reads.inTurn (hp : Reads p L B) : Reads (inTurn [p]) L B :=
  mul_one L ▸ hp.cons reads_inTurn_nil fun _ mem _ follows => by
    obtain rfl := (Language.mem_one _).mp mem
    exact follows

/-- Phrases in turn pass over what the first one passes over. -/
theorem PassesOver.cons (h : PassesOver p L) : PassesOver (Text.inTurn (p :: ps)) L :=
  fun front mem rest => by rw [Text.inTurn, h front mem rest, Option.bind_none]

theorem PassesOver.add (h : PassesOver p L) (h' : PassesOver p M) : PassesOver p (L + M) :=
  fun front mem => mem.elim (h front) (h' front)

theorem reads_anyOf_nil : Reads (anyOf []) 0 B where
  sound := fun h => by cases h
  complete := fun mem => absurd mem (Language.notMem_zero _)

/-- The first phrase that fits reads the sum, if it passes over the languages of those behind it. -/
theorem Reads.orElse (hp : Reads p L B) (hps : Reads (anyOf ps) M B) (passes : PassesOver p M) :
    Reads (anyOf (p :: ps)) (L + M) B where
  sound := by
    intro cs rest h
    rw [anyOf, List.findSome?_cons] at h
    split at h
    · rename_i taken
      cases h
      obtain ⟨front, mem, eq⟩ := hp.sound taken
      exact ⟨front, .inl mem, eq⟩
    · obtain ⟨front, mem, eq⟩ := hps.sound h
      exact ⟨front, .inr mem, eq⟩
  complete := by
    rintro front rest (mem | mem) follows
    · rw [anyOf, List.findSome?_cons, hp.complete mem follows]
    · rw [anyOf, List.findSome?_cons, passes front mem rest]
      exact hps.complete mem follows

theorem Reads.anyOf (hp : Reads p L B) : Reads (anyOf [p]) L B :=
  add_zero L ▸ hp.orElse reads_anyOf_nil fun _ mem => absurd mem (Language.notMem_zero _)

theorem UnspacedBefore.add (h : UnspacedBefore L B) (h' : UnspacedBefore M B) :
    UnspacedBefore (L + M) B :=
  fun front mem => mem.elim (h front) (h' front)

end CertifiedCalls.Text
