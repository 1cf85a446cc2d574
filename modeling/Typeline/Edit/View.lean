import Typeline.Edit.Hint
import Typeline.Edit.Line
import Typeline.Terminal.Plain
import Typeline.Text.Width

/-!
# Drawing of the line

A drawing is the text that takes the terminal from the last drawing of a line to the present one.
There are two ways to draw. On a single row the line is scrolled: clusters are left out at its
start until the cursor fits into the row, and then at its end until the rest fits. Over several
rows the line is wrapped by the terminal, and the number of rows and the row of the cursor are
remembered, so that the next drawing can erase them first.

In mask mode a glyph stands for each cluster. A hint follows the line if columns are left.

Numbers of columns are counts of 64 bits. A drawing tells whether all of them stayed in that range;
a drawing in which one did not is no drawing at all. That happens if the cursor stands inside of a
cluster that is wider than the parts of it, or if the number of columns of the terminal is close to
the limit.

## Main definitions

* `LineView` : all that a drawing shows.
* `LineView.window` : the part of the line that is shown on a single row.
* `LineView.drawRow`, `LineView.drawRows` : the two ways to draw.
* `LineView.draw` : the drawing of a line.
-/

namespace Typeline

/-- The glyph that stands for a cluster in mask mode. -/
def maskGlyph : Char := '*'

/-- Which part of a drawing is wanted. -/
inductive RefreshMode where
  /-- Erase the line. -/
  | clean
  /-- Draw the line where nothing is drawn. -/
  | write
  /-- Erase the line and draw it. -/
  | all
  deriving DecidableEq, Repr

namespace RefreshMode

/-- Whether the line is erased. -/
def cleans : RefreshMode → Bool
  | .write => false
  | _ => true

/-- Whether the line is drawn. -/
def writes : RefreshMode → Bool
  | .clean => false
  | _ => true

end RefreshMode

/-- What is remembered of the last drawing over several rows. -/
structure DrawState where
  /-- The number of rows that it took. -/
  rows : Nat
  /-- The row of the cursor, counted from one. -/
  cursorRow : Nat
  /-- The place of the cursor in the line, in bytes. -/
  cursor : Nat
  deriving DecidableEq, Repr

/-- What is remembered before the first drawing. -/
def DrawState.initial : DrawState := ⟨0, 1, 0⟩

/-- All that a drawing shows. -/
structure LineView where
  /-- What stands before the line. -/
  prompt : Text
  /-- The line. -/
  line : Line
  /-- The width of the terminal. -/
  columns : Nat
  /-- Whether the line may take several rows. -/
  multiline : Bool
  /-- Whether a glyph stands for each cluster. -/
  masked : Bool
  /-- The source of hints. -/
  hinter : Option Hinter

/-- A drawing. -/
structure Drawing where
  /-- What is written to the terminal. -/
  text : Text
  /-- What is remembered for the next drawing. -/
  state : DrawState
  /-- Whether the hinter was asked for a hint. -/
  hintAsked : Bool
  /-- Whether a hint was given and handed back. -/
  hintReleased : Bool
  /-- Whether all numbers of columns stayed in range. -/
  inRange : Bool
  deriving DecidableEq, Repr

/-- The columns of a prompt; the sequences that colour it take none. -/
def promptWidth (prompt : Text) : Nat :=
  if prompt.contains escape then textWidth (plainText prompt) else textWidth prompt

/-- The columns of a part of the line: in mask mode one for each cluster. -/
def contentWidth (masked : Bool) (t : Text) : Nat :=
  if masked then clusterCount t else textWidth t

/-- How a part of the line is shown. -/
def content (masked : Bool) (t : Text) : Text :=
  if masked then List.replicate (clusterCount t) maskGlyph else t

/-- The longest start of a list of clusters that fits into some columns, with the columns it
takes. -/
def fitClusters (room : Nat) : List Text → Text × Nat
  | [] => ([], 0)
  | cluster :: rest =>
    if clusterWidth cluster ≤ room then
      let (t, width) := fitClusters (room - clusterWidth cluster) rest
      (cluster ++ t, clusterWidth cluster + width)
    else ([], 0)

/-- The part of a drawing that shows a hint. -/
structure HintPart where
  /-- What is written. -/
  text : Text
  /-- The columns that it takes. -/
  width : Nat
  /-- Whether the hinter was asked. -/
  asked : Bool
  /-- Whether there was a hint. -/
  given : Bool
  deriving DecidableEq, Repr

/-- No hint. -/
def HintPart.none : HintPart := ⟨[], 0, false, false⟩

/-- The part of the line that is shown on a single row: it leaves out characters before `start`
and from `stop` on. -/
structure Window where
  /-- The number of characters before the window. -/
  start : Nat
  /-- The number of characters up to the end of the window. -/
  stop : Nat
  /-- The columns from the start of the window to the cursor. -/
  cursorColumn : Nat
  /-- The columns of the window. -/
  width : Nat
  /-- Whether all numbers of columns stayed in range. -/
  inRange : Bool
  deriving DecidableEq, Repr

namespace Window

/-- Leave out clusters at the start, as long as the cursor, which stands behind `cursor`
characters, would get past the last of the `columns`, of which the prompt takes some. -/
def scroll (width : Text → Nat) (prompt columns cursor : Nat) (w : Window) : List Text → Window
  | [] => w
  | cluster :: rest =>
    if columns ≤ prompt + w.cursorColumn ∧ w.start < cursor then
      let left := width cluster
      scroll width prompt columns cursor
        { w with
          start := w.start + cluster.length
          cursorColumn := w.cursorColumn - left
          width := w.width - left
          inRange := w.inRange && left ≤ w.cursorColumn && left ≤ w.width } rest
    else w

/-- Leave out clusters at the end, given from the last one on, as long as prompt and window take
more than the `columns` and the window does not end at the cursor. -/
def trim (width : Text → Nat) (prompt columns cursor : Nat) (w : Window) : List Text → Window
  | [] => w
  | cluster :: rest =>
    if columns < prompt + w.width ∧ cursor < w.stop then
      let right := width cluster
      trim width prompt columns cursor
        { w with
          stop := w.stop - cluster.length
          width := w.width - right
          inRange := w.inRange && right ≤ w.width } rest
    else w

/-- The text in a window. -/
def slice (w : Window) (t : Text) : Text := (t.take w.stop).drop w.start

end Window

namespace LineView

/-- The columns of the terminal, of which there is at least one. -/
def width (v : LineView) : Nat := max v.columns 1

/-- The columns of one cluster of the line. -/
def shownWidth (v : LineView) (cluster : Text) : Nat :=
  if v.masked then 1 else clusterWidth cluster

/-- The columns of the prompt and the whole line. -/
def usedWidth (v : LineView) : Nat :=
  promptWidth v.prompt + contentWidth v.masked v.line.text

/-- The columns of the prompt and the line up to the cursor. -/
def cursorWidth (v : LineView) : Nat :=
  promptWidth v.prompt + contentWidth v.masked v.line.textBefore

/-- The hint behind the line: as many of its clusters as fit into the columns that are left. If
none is left, the hinter is not asked. -/
def hintPart (v : LineView) : HintPart :=
  match v.hinter with
  | none => .none
  | some hinter =>
    if v.width ≤ v.usedWidth then .none
    else match hinter v.line.text with
      | none => ⟨[], 0, true, false⟩
      | some hint =>
        let (t, width) := fitClusters (v.width - v.usedWidth) (clusters hint.text)
        match hint.style with
        | some (before, after) => ⟨before ++ t ++ after, width, true, true⟩
        | none => ⟨t, width, true, true⟩

/-- The window that shows the whole line. -/
def wholeWindow (v : LineView) : Window where
  start := 0
  stop := v.line.text.length
  cursorColumn := contentWidth v.masked v.line.textBefore
  width := contentWidth v.masked v.line.text
  inRange := true

/-- The part of the line that is shown on a single row. -/
def window (v : LineView) : Window :=
  let parts := clusters v.line.text
  let prompt := promptWidth v.prompt
  let cursor := v.line.before.length
  let scrolled := v.wholeWindow.scroll v.shownWidth prompt v.width cursor parts
  scrolled.trim v.shownWidth prompt v.width cursor parts.reverse

/-- Move the cursor by so many columns, or not at all. -/
def forwardBy (columns : Nat) : Text :=
  if 0 < columns then (ControlSequence.cursorForward columns).text else []

/-- Draw on a single row. -/
def drawRow (v : LineView) (state : DrawState) (mode : RefreshMode) : Drawing :=
  let w := v.window
  let inRange := w.inRange && w.start ≤ w.stop
  if mode.writes then
    let hint := v.hintPart
    let written := promptWidth v.prompt + w.width + hint.width
    { text := '\r' :: v.prompt ++ content v.masked (w.slice v.line.text) ++ hint.text
        ++ (if written < v.width then eraseToEnd else [])
        ++ '\r' :: forwardBy (promptWidth v.prompt + w.cursorColumn)
      state := state
      hintAsked := hint.asked
      hintReleased := hint.given
      inRange := inRange }
  else
    { text := '\r' :: eraseToEnd
      state := state
      hintAsked := false
      hintReleased := false
      inRange := inRange }

/-- Erase the rows of the last drawing but the first one, from the last one upwards. -/
def eraseRows (state : DrawState) : Text :=
  (if state.cursorRow < state.rows then
    (ControlSequence.cursorDown (state.rows - state.cursorRow)).text else [])
  ++ (List.replicate (state.rows - 1)
    ('\r' :: eraseToEnd ++ (ControlSequence.cursorUp 1).text)).flatten

/-- The number of rows of a given width that some columns take. -/
def rowsOf (columns width : Nat) : Nat := (columns + width - 1) / width

/-- Draw over several rows. A line that ends with a full row leaves the cursor in the last column,
so it is sent on to a new row. -/
def drawRows (v : LineView) (state : DrawState) (mode : RefreshMode) : Drawing :=
  let rows := rowsOf v.usedWidth v.width
  let erased := (if mode.cleans then eraseRows state else []) ++ '\r' :: eraseToEnd
  if mode.writes then
    let hint := v.hintPart
    let wraps := !v.line.before.isEmpty && v.line.atEnd && v.cursorWidth % v.width == 0
    let allRows := if wraps then rows + 1 else rows
    let cursorRow := (v.cursorWidth + v.width) / v.width
    { text := erased ++ v.prompt ++ content v.masked v.line.text ++ hint.text
        ++ (if wraps then ['\n', '\r'] else [])
        ++ (if cursorRow < allRows then (ControlSequence.cursorUp (allRows - cursorRow)).text
          else [])
        ++ '\r' :: forwardBy (v.cursorWidth % v.width)
      state := ⟨allRows, cursorRow, v.line.cursor⟩
      hintAsked := hint.asked
      hintReleased := hint.given
      inRange := v.usedWidth ≤ maxCount && v.cursorWidth + v.width ≤ maxCount }
  else
    { text := erased
      state := ⟨rows, state.cursorRow, v.line.cursor⟩
      hintAsked := false
      hintReleased := false
      inRange := v.usedWidth ≤ maxCount }

/-- Draw the line. -/
def draw (v : LineView) (state : DrawState) (mode : RefreshMode) : Drawing :=
  if v.multiline then v.drawRows state mode else v.drawRow state mode

end LineView

end Typeline
