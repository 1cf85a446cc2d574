import Typeline.Text.Cluster

/-!
# The line being edited

A line is the text before the cursor and the text after it, and a limit on the bytes of both. It
is changed one cluster at a time. Every operation that can find nothing to do answers `none` in
that case, and the line stays as it was.

## Main definitions

* `Line` : the text on the two sides of the cursor.
* `Line.insert`, `Line.left`, `Line.delete` and the like : the operations of editing.
* `Line.setText` : replacing the whole line.
-/

namespace Typeline

/-- A line with a cursor in it. -/
structure Line where
  /-- The characters before the cursor, the nearest one first. -/
  before : List Char
  /-- The characters after the cursor. -/
  after : List Char
  /-- The largest number of bytes that may be typed into the line. -/
  capacity : Nat
  deriving DecidableEq, Repr

namespace Line

/-- The capacity of a line if none is chosen. -/
def defaultCapacity : Nat := 4095

/-- An empty line. -/
def empty (capacity : Nat) : Line := ⟨[], [], capacity⟩

/-- The text of a line. -/
def text (l : Line) : Text := l.before.reverse ++ l.after

/-- The text before the cursor. -/
def textBefore (l : Line) : Text := l.before.reverse

/-- The number of bytes of a line. -/
def length (l : Line) : Nat := byteLength l.before + byteLength l.after

/-- The place of the cursor, counted in bytes. -/
def cursor (l : Line) : Nat := byteLength l.before

/-- Whether a line has no text. -/
def isEmpty (l : Line) : Bool := l.before.isEmpty && l.after.isEmpty

/-- Whether the cursor stands behind the whole text. -/
def atEnd (l : Line) : Bool := l.after.isEmpty

theorem byteLength_text (l : Line) : byteLength l.text = l.length := by
  simp [text, length]

/-- Move a position to the right, character by character, until it lies between two clusters. -/
def settle : List Char → List Char → List Char × List Char
  | before, [] => (before, [])
  | before, c :: after =>
    if isBoundary before (c :: after) then (before, c :: after) else settle (c :: before) after

/-- A line with its cursor moved to the right until it lies between two clusters. -/
def settled (l : Line) : Line :=
  let (before, after) := settle l.before l.after
  { l with before, after }

/-- Insert a text at the cursor, and move the cursor behind it. A text that does not fit is
refused as a whole. -/
def insert (l : Line) (chunk : Text) : Option Line :=
  if chunk.isEmpty || l.capacity < l.length + byteLength chunk then none
  else some { l with before := chunk.reverse ++ l.before }.settled

/-- Move the cursor to the left over one cluster. -/
def left (l : Line) : Option Line :=
  if l.before.isEmpty then none
  else
    let (before, after) := backward l.before l.after
    some { l with before, after }

/-- Move the cursor to the right over one cluster. -/
def right (l : Line) : Option Line :=
  if l.after.isEmpty then none
  else
    let (before, after) := forward l.before l.after
    some { l with before, after }

/-- Move the cursor to the start. -/
def home (l : Line) : Option Line :=
  if l.before.isEmpty then none else some { l with before := [], after := l.text }

/-- Move the cursor to the end. -/
def moveEnd (l : Line) : Option Line :=
  if l.after.isEmpty then none else some { l with before := l.text.reverse, after := [] }

/-- Delete the cluster under the cursor. -/
def delete (l : Line) : Option Line :=
  if l.after.isEmpty then none else some { l with after := (forward l.before l.after).2 }

/-- Delete the cluster before the cursor. -/
def backspace (l : Line) : Option Line :=
  if l.before.isEmpty then none else some { l with before := (backward l.before l.after).1 }

/-- Walk to the left, cluster by cluster, as long as the character before the position satisfies
`p`. While `inside` a cluster the walk goes on to its start. -/
def backwardWhile (p : Char → Bool) (inside : Bool) :
    List Char → List Char → List Char × List Char
  | [], after => ([], after)
  | c :: before, after =>
    if inside || p c then backwardWhile p (!isBoundary before (c :: after)) before (c :: after)
    else (c :: before, after)

/-- The characters that are left before the cursor when the spaces there and then the clusters up
to the next space are passed over. -/
def beforeWord (l : Line) : List Char :=
  let (before, after) := backwardWhile (· == ' ') false l.before l.after
  (backwardWhile (· != ' ') false before after).1

/-- Delete the spaces before the cursor and then the word before them. -/
def deleteWord (l : Line) : Option Line :=
  if l.before.isEmpty then none else some { l with before := l.beforeWord }

/-- Delete everything behind the cursor. -/
def killToEnd (l : Line) : Option Line :=
  if l.after.isEmpty then none else some { l with after := [] }

/-- Delete everything. -/
def clear (l : Line) : Option Line :=
  if l.isEmpty then none else some { l with before := [], after := [] }

/-- Swap the clusters on the two sides of the cursor, and move the cursor behind both. -/
def transpose (l : Line) : Option Line :=
  if l.before.isEmpty || l.after.isEmpty then none
  else
    let rest := (backward l.before l.after).1
    let (passed, after) := forward l.before l.after
    let first := l.before.take (l.before.length - rest.length)
    let second := passed.take (passed.length - l.before.length)
    some { l with before := first ++ second ++ rest, after }.settled

/-- The longest start of a text that ends between two clusters and takes at most `room` bytes, its
last character first. `kept` is the longest one found before the position. -/
def longestFit (room : Nat) (kept : List Char) : List Char → List Char → List Char
  | _, [] => kept
  | before, c :: after =>
    if c.utf8Size ≤ room then
      longestFit (room - c.utf8Size)
        (if isBoundary (c :: before) after then c :: before else kept) (c :: before) after
    else kept

/-- Replace the whole line, with the cursor at its end. A text that does not fit is cut where a
cluster ends. -/
def setText (l : Line) (t : Text) : Line :=
  { l with before := longestFit l.capacity [] [] t, after := [] }

/-- Take the text out of a line. -/
def take (l : Line) : Text × Line := (l.text, empty l.capacity)

end Line

end Typeline
