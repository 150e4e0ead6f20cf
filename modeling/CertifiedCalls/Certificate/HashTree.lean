import CertifiedCalls.Bytes

/-! # Hash trees
A **hash tree** is the content of a certificate: a map from labels to subtrees, laid out under forks
in increasing order of the labels, with leaves at the ends of the paths. Parts of it may be
**pruned**. A look-up therefore has four outcomes: the value, its proven absence, ignorance, and the
discovery that the path ends before a leaf. -/

namespace CertifiedCalls

/-- A **hash tree**. -/
inductive HashTree where
  /-- No content. -/
  | empty
  /-- Two parts side by side. -/
  | fork (left right : HashTree)
  /-- A subtree under a label. -/
  | labeled (label : Bytes) (subtree : HashTree)
  /-- A value. -/
  | leaf (value : Bytes)
  /-- A part that was taken out, of which only the digest is left. -/
  | pruned (digest : Bytes)
deriving DecidableEq, Repr, Inhabited

/-- The outcome of **looking up** a path. -/
inductive Lookup where
  /-- The leaf at the path has this value. -/
  | found (value : Bytes)
  /-- There is provably nothing at the path. -/
  | absent
  /-- Whatever is at the path may have been pruned. -/
  | unknown
  /-- The path ends before a leaf. -/
  | error
deriving DecidableEq, Repr

/-- The outcome of looking for one label. -/
inductive LabelSearch where
  /-- The subtree under the label. -/
  | found (subtree : HashTree)
  /-- The label is provably not there. -/
  | absent
  /-- The label may have been pruned. -/
  | unknown
deriving DecidableEq, Repr

namespace HashTree

/-- The parts of a tree side by side, from left to right. -/
def parts : HashTree → List HashTree
  | .empty => []
  | .fork left right => parts left ++ parts right
  | other => [other]

/-- The subtree of the first part with a label. -/
def subtreeOf? (label : Bytes) : List HashTree → Option HashTree
  | [] => none
  | .labeled l subtree :: rest => if l = label then some subtree else subtreeOf? label rest
  | _ :: rest => subtreeOf? label rest

/-- Whether two labels next to each other leave no room for a label between them. -/
def passesBetween (label : Bytes) : List HashTree → Bool
  | .labeled l _ :: .labeled r t :: rest =>
    (l.before label && label.before r) || passesBetween label (.labeled r t :: rest)
  | _ :: rest => passesBetween label rest
  | [] => false

/-- Whether a label comes before that of the first part. -/
def precedesFirst (label : Bytes) (ts : List HashTree) : Bool :=
  match ts.head? with
  | some (.labeled first _) => label.before first
  | _ => false

/-- Whether a label comes after that of the last part. -/
def followsLast (label : Bytes) (ts : List HashTree) : Bool :=
  match ts.getLast? with
  | some (.labeled last _) => last.before label
  | _ => false

/-- Whether parts side by side prove that a label is not among them: they are none at all or a lone
leaf, or the place where the label would stand is next to labels that are still there. -/
def excludes (label : Bytes) : List HashTree → Bool
  | [] => true
  | [.leaf _] => true
  | ts => precedesFirst label ts || followsLast label ts || passesBetween label ts

/-- Looks for a label among the parts of a tree. -/
def search (label : Bytes) (t : HashTree) : LabelSearch :=
  match subtreeOf? label t.parts with
  | some subtree => .found subtree
  | none => if excludes label t.parts then .absent else .unknown

/-- What stands at the end of a path. -/
def content : HashTree → Lookup
  | .leaf value => .found value
  | .empty => .absent
  | .pruned _ => .unknown
  | _ => .error

/-- **Looks up** a path of labels. -/
def lookup : HashTree → List Bytes → Lookup
  | t, [] => t.content
  | t, label :: rest =>
    match t.search label with
    | .found subtree => lookup subtree rest
    | .absent => .absent
    | .unknown => .unknown

/-- Puts a child before the first one whose label is not smaller. -/
def insertChild (child : Bytes × HashTree) : List (Bytes × HashTree) → List (Bytes × HashTree)
  | [] => [child]
  | other :: rest =>
    if other.1.before child.1 then other :: insertChild child rest else child :: other :: rest

/-- Children in increasing order of their labels. Those that share a label keep their order. -/
def sortChildren (children : List (Bytes × HashTree)) : List (Bytes × HashTree) :=
  children.foldr insertChild []

/-- Joins neighbours two by two. -/
def pairUp : List HashTree → List HashTree
  | left :: right :: rest => .fork left right :: pairUp rest
  | rest => rest

/-- Joining neighbours leaves fewer than there were. -/
theorem length_pairUp_le : (ts : List HashTree) → 2 * (pairUp ts).length ≤ ts.length + 1
  | [] => by simp [pairUp]
  | [_] => by simp [pairUp]
  | _ :: _ :: rest => by
    have := length_pairUp_le rest
    simp only [pairUp, List.length_cons]
    omega

/-- Joins a row of trees under balanced forks. -/
def join : List HashTree → HashTree
  | [] => .empty
  | [t] => t
  | s :: t :: rest => join (pairUp (s :: t :: rest))
termination_by ts => ts.length
decreasing_by
  have := length_pairUp_le rest
  simp only [pairUp, List.length_cons]
  omega

/-- The tree with the given children under their labels. -/
def ofChildren (children : List (Bytes × HashTree)) : HashTree :=
  join ((sortChildren children).map fun child => .labeled child.1 child.2)

end HashTree

end CertifiedCalls
