import Typeline.Text.Blank
import Typeline.Text.CharWidth
import Typeline.Terminal.StreamParser

/-!
# Screen of a terminal

A screen is a list of rows of cells and a cursor. It knows as much of a terminal as line editing
needs: printing, carriage return, line feed and backspace, moves of the cursor, and erasing. Rows
are added at the bottom as the cursor gets there, and none is ever lost.

Printing into the last column leaves the cursor there. The next character that takes room wraps to
the following row; any move of the cursor in between calls that off. A character of no width, and
any character after a zero width joiner, joins the cell to its left.

## Main definitions

* `Screen` : rows of cells and a cursor.
* `Screen.print`, `Screen.execute`, `Screen.control` : what the events of the stream do.
* `Screen.feed` : showing a chunk of bytes.
* `Screen.lines` : what can be read on the screen.
-/

namespace Typeline

/-- A cell of a screen. -/
inductive Cell where
  /-- Nothing is drawn. -/
  | blank
  /-- A character with what has joined it. -/
  | glyph (t : Text)
  /-- The right half of a wide character. -/
  | wideTail
  deriving DecidableEq, Repr

/-- What a cell shows. -/
def Cell.shown : Cell → Text
  | .blank => [' ']
  | .glyph t => t
  | .wideTail => []

/-- A row of cells without anything in it. -/
def blankRow (columns : Nat) : List Cell := List.replicate columns .blank

/-- A screen. -/
structure Screen where
  /-- The number of cells of each row. -/
  columns : Nat
  /-- The rows, from the top. -/
  rows : List (List Cell)
  /-- The row of the cursor. -/
  row : Nat
  /-- The column of the cursor. -/
  column : Nat
  /-- Whether the next character that takes room goes to the next row. -/
  wrapPending : Bool
  /-- Whether the last character was a joiner. -/
  afterJoiner : Bool
  /-- Where the reader of the stream stands. -/
  reader : StreamState
  deriving Repr

namespace Screen

/-- A blank screen of one row, with the cursor at its start. There is at least one column. -/
def blank (columns : Nat) : Screen where
  columns := max columns 1
  rows := [blankRow (max columns 1)]
  row := 0
  column := 0
  wrapPending := false
  afterJoiner := false
  reader := StreamParser.start

/-- Rows extended downwards so that there is a row with the given index. -/
def extendRows (columns : Nat) (rows : List (List Cell)) (index : Nat) : List (List Cell) :=
  rows ++ List.replicate (index + 1 - rows.length) (blankRow columns)

/-- Move the cursor to a row and a column, or to the last column if there are not so many. -/
def moveTo (s : Screen) (row column : Nat) : Screen :=
  { s with
    row := row
    column := min column (s.columns - 1)
    wrapPending := false
    afterJoiner := false
    rows := extendRows s.columns s.rows row }

/-- Add a character to the last cell of a list that shows a character; a list without one stays
as it is. -/
def joinLast (c : Char) (cells : List Cell) : List Cell :=
  (go cells.reverse).reverse
where
  /-- Add the character to the first cell that shows one. -/
  go : List Cell → List Cell
    | [] => []
    | .glyph t :: rest => .glyph (t ++ [c]) :: rest
    | cell :: rest => cell :: go rest

/-- Let a character join the cell to the left of the cursor. -/
def attach (s : Screen) (c : Char) : Screen :=
  let last := if s.wrapPending then s.column else s.column - 1
  let join (cells : List Cell) : List Cell :=
    joinLast c (cells.take (last + 1)) ++ cells.drop (last + 1)
  { s with rows := s.rows.modify s.row join }

/-- Put a character of one or two columns into a row. -/
def putCells (cells : List Cell) (column : Nat) (c : Char) (width : Nat) : List Cell :=
  let cells := cells.set column (.glyph [c])
  if width = 2 then cells.set (column + 1) .wideTail else cells

/-- Draw a character of one or two columns at the cursor and move the cursor behind it. -/
def put (s : Screen) (c : Char) (width : Nat) : Screen :=
  let s := if s.wrapPending || s.columns < s.column + width then s.moveTo (s.row + 1) 0 else s
  let full := s.columns ≤ s.column + width
  { s with
    rows := s.rows.modify s.row fun cells => putCells cells s.column c width
    column := if full then s.columns - 1 else s.column + width
    wrapPending := full }

/-- Print a character. -/
def print (s : Screen) (c : Char) : Screen :=
  let width := charWidth c
  let joins := width == 0 || s.afterJoiner
  let s := { s with afterJoiner := c == joiner }
  if joins then s.attach c else s.put c width

/-- Carry out a control byte. -/
def execute (s : Screen) (b : UInt8) : Screen :=
  if b = 0x0D then s.moveTo s.row 0
  else if b = 0x0A then s.moveTo (s.row + 1) s.column
  else if b = 0x08 then s.moveTo s.row (s.column - 1)
  else s

/-- Erase the cells of the row of the cursor: 0 from the cursor on, 1 up to it, 2 all. -/
def eraseLine (s : Screen) (part : Nat) : Screen :=
  let erase (cells : List Cell) : List Cell :=
    match part with
    | 0 => cells.take s.column ++ blankRow (cells.length - s.column)
    | 1 => blankRow (min (s.column + 1) cells.length) ++ cells.drop (s.column + 1)
    | 2 => blankRow cells.length
    | _ => cells
  { s with rows := s.rows.modify s.row erase }

/-- Erase the whole screen, which is the only part of it that is erased as a whole. -/
def eraseDisplay (s : Screen) (part : Nat) : Screen :=
  if part = 2 then { s with rows := s.rows.map fun cells => blankRow cells.length } else s

/-- Carry out a control sequence. A move by no steps is one by one step, and places on the screen
are counted from one. -/
def control (s : Screen) (parameters : List Nat) (final : UInt8) : Screen :=
  let first := parameters.headD 0
  let second := (parameters.drop 1).headD 0
  let count := max first 1
  if final = 'A'.toUInt8 then s.moveTo (s.row - count) s.column
  else if final = 'B'.toUInt8 then s.moveTo (s.row + count) s.column
  else if final = 'C'.toUInt8 then s.moveTo s.row (s.column + count)
  else if final = 'D'.toUInt8 then s.moveTo s.row (s.column - count)
  else if final = 'H'.toUInt8 then s.moveTo (first - 1) (second - 1)
  else if final = 'K'.toUInt8 then s.eraseLine first
  else if final = 'J'.toUInt8 then s.eraseDisplay first
  else s

/-- Carry out an event of the stream. -/
def perform (s : Screen) : StreamEvent → Screen
  | .print c => s.print c
  | .execute b => s.execute b
  | .control parameters final => s.control parameters final

/-- Show a chunk of a stream of bytes. -/
def feed (s : Screen) (chunk : List UInt8) : Screen :=
  let (reader, events) := StreamParser.runChunk s.reader chunk
  { events.foldl perform s with reader }

/-- Show a text. -/
def feedText (s : Screen) (t : Text) : Screen := s.feed (Utf8.encode t)

/-- The text of a row without the blanks at its end. -/
def rowText (cells : List Cell) : Text := trimEnd (cells.flatMap Cell.shown)

/-- The text of the row with an index; a row that does not exist shows nothing. -/
def line (s : Screen) (index : Nat) : Text := rowText (s.rows[index]?.getD [])

/-- The texts of all rows. -/
def lines (s : Screen) : List Text := s.rows.map rowText

/-- The texts of the rows that show something. -/
def inkedLines (s : Screen) : List Text := s.lines.filter fun t => !t.isEmpty

end Screen

end Typeline
