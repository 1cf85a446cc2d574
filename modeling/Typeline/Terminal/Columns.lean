import Typeline.Terminal.ControlSequence
import Typeline.Terminal.Device
import Typeline.Terminal.Settings

/-!
# Width of a terminal

The width is fixed by the settings, or reported by the system, or found by a probe: ask where the
cursor is, send it far to the right, ask again and bring it back. When everything fails a
customary width is assumed.
-/

namespace Typeline

/-- The width that is assumed when no way of finding it succeeds. -/
def defaultColumns : Nat := 80

/-- How far the probe sends the cursor; terminals stop it at the last column. -/
def farRight : Nat := 999

/-- The largest number of bytes that is read of one report. -/
def reportLimit : Nat := 32

/-- The byte that ends a report of the place of the cursor. -/
def reportEnd : UInt8 := 'R'.toUInt8

/-- Cut a text at the first semicolon. -/
def splitAtSemicolon : Text → Option (Text × Text)
  | [] => none
  | c :: t =>
    if c = ';' then some ([], t)
    else (splitAtSemicolon t).map fun (before, after) => (c :: before, after)

/-- The row and the column in a report of the place of the cursor. -/
def parseCursorReport (bytes : List UInt8) : Option (Nat × Nat) := do
  let t ← Utf8.decode? bytes
  match t with
  | '\x1B' :: '[' :: rest =>
    if rest.getLast? = some 'R' then
      let (rows, columns) ← splitAtSemicolon rest.dropLast
      return (← count? rows, ← count? columns)
    else none
  | _ => none

/-- Read a report byte by byte up to its end, at most `limit` bytes. It is given up as soon as a
byte does not come. -/
def readReport (input : Input) : (limit : Nat) → Option (List UInt8) × Input
  | 0 => (some [], input)
  | limit + 1 =>
    match input.readSoon with
    | (.byte b, input) =>
      if b = reportEnd then (some [b], input)
      else
        let (rest, input) := readReport input limit
        (rest.map (b :: ·), input)
    | (_, input) => (none, input)

/-- Ask the terminal for the column of the cursor, counted from one. -/
def queryColumn (input : Input) (output : Output) : Option Nat × Input × Output :=
  match output.tryWrite (ControlSequence.statusReport 6).text with
  | (false, output) => (none, input, output)
  | (true, output) =>
    let (report, input) := readReport input reportLimit
    ((report.bind parseCursorReport).map Prod.snd, input, output)

/-- Find the width with the help of the cursor. -/
def probeColumns (input : Input) (output : Output) : Option Nat × Input × Output :=
  match queryColumn input output with
  | (none, input, output) => (none, input, output)
  | (some start, input, output) =>
    let output := output.write (ControlSequence.cursorForward farRight).text
    match queryColumn input output with
    | (none, input, output) => (none, input, output)
    | (some columns, input, output) =>
      let output :=
        if start < columns then output.write (ControlSequence.cursorBackward (columns - start)).text
        else output
      (some columns, input, output)

/-- The width of a terminal. -/
def findColumns (settings : TerminalSettings) (input : Input) (output : Output) :
    Nat × Input × Output :=
  match settings.fixedColumns <|> input.columns with
  | some columns => (columns, input, output)
  | none =>
    let (columns, input, output) := probeColumns input output
    (columns.getD defaultColumns, input, output)

/-- Put the cursor home and erase the whole screen. -/
def clearScreen (output : Output) : Output :=
  output.write (ControlSequence.cursorHome.text ++ (ControlSequence.eraseDisplay 2).text)

end Typeline
