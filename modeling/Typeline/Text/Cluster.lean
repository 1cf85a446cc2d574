import Typeline.Text.BreakClass

/-!
# Clusters

A cluster is what a reader takes for one character: a letter with its accents, a flag, a family
of joined emoji, the pair of carriage return and line feed. Clusters follow the extended clusters
of Unicode 17.0, with two more joins: a character of zero width always belongs to what stands
before it, and whatever follows a zero width joiner belongs to the joiner.

A position in a text is a pair of lists: the characters before it, the nearest one first, and the
characters after it. `isBoundary` says whether a position lies between two clusters; the ends of
the text always do. `forward` and `backward` walk from a position to the next one that does, and
`clusters` cuts a whole text.

## Main definitions

* `isBoundary` : whether a position lies between two clusters.
* `forward`, `backward` : the next position to the right and to the left that does.
* `clusters` : the clusters of a text.
-/

namespace Typeline

/-- Whether the characters before a position end in a consonant that a linker joins to the
consonant after the position. `linked` tells whether a linker has been passed. -/
def endsLinked (linked : Bool) : List Char → Bool
  | [] => false
  | c :: before =>
    if BreakTable.linker.contains c then endsLinked true before
    else if isConjunctExtend c then endsLinked linked before
    else linked && breakClass c == .consonant

/-- Whether the characters before a position end in the first half of a flag: an odd number of
letters of flags. -/
def endsInHalfFlag (before : List Char) : Bool :=
  (before.takeWhile isRegional).length % 2 == 1

/-- Whether the classes of two neighbours and what stands further left allow a cut between them. -/
def splits (before : List Char) (left right : BreakClass) : Bool :=
  match left, right with
  | .carriageReturn, .lineFeed => false
  | .carriageReturn, _ | .lineFeed, _ | .control, _ => true
  | _, .carriageReturn | _, .lineFeed | _, .control => true
  | .leading, .leading | .leading, .vowel | .leading, .openSyllable | .leading, .closedSyllable =>
    false
  | .openSyllable, .vowel | .openSyllable, .trailing | .vowel, .vowel | .vowel, .trailing => false
  | .closedSyllable, .trailing | .trailing, .trailing => false
  | _, .extend | _, .spacingMark => false
  | .prepend, _ => false
  | _, .consonant => !endsLinked false before
  | .regional, .regional => !endsInHalfFlag before
  | _, _ => true

/-- Whether a position is a border of clusters. -/
def isBoundary : List Char → List Char → Bool
  | left :: before, right :: _ =>
    !isZeroWidth right && left != joiner
      && splits (left :: before) (breakClass left) (breakClass right)
  | _, _ => true

/-- The position after the cluster, or the rest of it, that starts at a position. -/
def forward : List Char → List Char → List Char × List Char
  | before, [] => (before, [])
  | before, c :: after =>
    if isBoundary (c :: before) after then (c :: before, after) else forward (c :: before) after

/-- The position before the cluster, or the part of it, that ends at a position. -/
def backward : List Char → List Char → List Char × List Char
  | [], after => ([], after)
  | c :: before, after =>
    if isBoundary before (c :: after) then (before, c :: after) else backward before (c :: after)

/-- The clusters of the characters after a position, where a cluster starts at the position. -/
def clustersAfter : List Char → List Char → List Text
  | _, [] => []
  | before, c :: after =>
    if isBoundary (c :: before) after then [c] :: clustersAfter (c :: before) after
    else
      match clustersAfter (c :: before) after with
      | [] => [[c]]
      | cluster :: rest => (c :: cluster) :: rest

/-- The clusters of a text. -/
def clusters (t : Text) : List Text := clustersAfter [] t

/-- The number of bytes from a position to the end of the cluster it is in. -/
def forwardLength (before after : List Char) : Nat :=
  byteLength after - byteLength (forward before after).2

/-- The number of bytes from a position to the start of the cluster that ends there or that it
is in. -/
def backwardLength (before after : List Char) : Nat :=
  byteLength before - byteLength (backward before after).1

@[simp] theorem isBoundary_nil_left (after : List Char) : isBoundary [] after = true := rfl

@[simp] theorem isBoundary_nil_right (before : List Char) : isBoundary before [] = true := by
  cases before <;> rfl

theorem length_forward_lt (before : List Char) (c : Char) (after : List Char) :
    (forward before (c :: after)).2.length < (c :: after).length := by
  induction after generalizing before c with
  | nil => simp [forward]
  | cons d after ih =>
    rw [forward]
    split
    · simp
    · exact Nat.lt_trans (ih (c :: before) d) (by simp)

theorem length_backward_lt (c : Char) (before after : List Char) :
    (backward (c :: before) after).1.length < (c :: before).length := by
  induction before generalizing after c with
  | nil => simp [backward]
  | cons d before ih =>
    rw [backward]
    split
    · simp
    · exact Nat.lt_trans (ih d (c :: after)) (by simp)

end Typeline
