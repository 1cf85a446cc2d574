import Typeline.Text.Cluster
import Typeline.Text.SequenceWidth

/-!
# Width of a text

A text takes as many columns as its clusters, and no cluster takes more than two. In a text of
ASCII characters no cluster needs to be looked at: every character takes one column, except for
control characters, which take none.

## Main definitions

* `clusterWidth` : the columns of one cluster.
* `textWidth` : the columns of a text.
* `clusterCount` : the number of clusters of a text.
-/

namespace Typeline

/-- The columns of one cluster. -/
def clusterWidth (cluster : Text) : Nat :=
  if isAscii cluster then min 2 (cluster.countP fun c => !isAsciiControl c)
  else min 2 (sequenceWidth cluster)

/-- The columns of a text. -/
def textWidth (t : Text) : Nat :=
  if isAscii t then t.countP fun c => !isAsciiControl c
  else (clusters t).foldr (fun cluster columns => clusterWidth cluster + columns) 0

/-- The number of clusters of a text; in a text of ASCII characters every character is counted. -/
def clusterCount (t : Text) : Nat :=
  if isAscii t then t.length else (clusters t).length

theorem clusterWidth_le_two (cluster : Text) : clusterWidth cluster ≤ 2 := by
  unfold clusterWidth
  split <;> omega

end Typeline
