import Typeline.Edit.View
import Typeline.Error
import Typeline.Key.Decoder
import Typeline.Session.Editor
import Typeline.Terminal.Columns
import Typeline.Terminal.RawMode

/-!
# Editing sessions

A session is an edit under way. It is driven by `feed`, which reads one key and acts on it; after
each key the terminal shows the line as it is then. Input that is no terminal is not edited but
read as plain lines, of any length.

## Main definitions

* `Session.start` : the start of an edit.
* `Session.act` : what a key does.
* `Session.complete` : what a key does to the cycle through the candidates.
* `Session.feed` : reading one key and acting on it.
* `Session.hide`, `Session.reveal`, `Session.printAbove` : making room for other output.
* `Session.finish` : the end of an edit.
-/

namespace Typeline

/-- An edit under way. -/
structure Session where
  /-- The editor to which the session belongs. -/
  editor : Editor
  /-- The keyboard. -/
  input : Input
  /-- The terminal. -/
  output : Output
  /-- What stands before the line. -/
  prompt : Text
  /-- The line. -/
  line : Line
  /-- The width of the terminal. -/
  columns : Nat
  /-- The reader of keys. -/
  decoder : KeyDecoder
  /-- Where the cycle through the candidates stands. -/
  cycle : CompletionCycle
  /-- The candidates of the cycle. -/
  candidates : List Text
  /-- The entry of the history that is edited, counted from the newest one. -/
  historyIndex : Nat
  /-- What is remembered of the last drawing. -/
  drawState : DrawState
  /-- Whether the line is edited, and not only read. -/
  isTerminal : Bool
  /-- The bytes of a line that is only read. -/
  plainLine : List UInt8
  /-- Whether the session has been finished. -/
  finished : Bool
  /-- How often the hinter was asked for a hint. -/
  hintsAsked : Nat
  /-- How often a hint was handed back. -/
  hintsReleased : Nat
  /-- Whether in all drawings all numbers of columns stayed in range. -/
  inRange : Bool

/-- What reading one key leads to. -/
inductive FeedResult where
  /-- The edit goes on. -/
  | more
  /-- The edit is over. -/
  | done (event : EditEvent)
  /-- Reading failed. -/
  | error (e : EditError)
  deriving DecidableEq, Repr

namespace Session

/-- A session before the terminal has been looked at. -/
def unopened (editor : Editor) (input : Input) (output : Output) (prompt : Text)
    (isTerminal : Bool) : Session where
  editor := editor
  input := input
  output := output
  prompt := prompt
  line := .empty editor.config.capacity
  columns := 0
  decoder := .idle
  cycle := .idle
  candidates := []
  historyIndex := 0
  drawState := .initial
  isTerminal := isTerminal
  plainLine := []
  finished := false
  hintsAsked := 0
  hintsReleased := 0
  inRange := true

/-- Start a session. On a terminal this finds its width, opens the live slot of the history and
shows the prompt. A terminal that is not only assumed has to be put into raw mode. -/
def start (editor : Editor) (mode : RawMode) (input : Input) (output : Output) (prompt : Text) :
    Except EditError Session :=
  if editor.config.capacity = 0 then .error .bufferCapacity
  else
    let assumed := editor.terminal.assumeTerminal
    let isTerminal := assumed || input.isTerminal
    match if isTerminal && !assumed then mode.enable else .ok mode with
    | .error reason => .error (.rawMode reason)
    | .ok _ =>
      if isTerminal then
        let (columns, input, output) := findColumns editor.terminal input output
        let editor := { editor with history := editor.history.beginLiveSlot }
        .ok { unopened editor input (output.write prompt) prompt true with columns }
      else .ok (unopened editor input output prompt false)

/-- A session with its history replaced. -/
def withHistory (s : Session) (history : History) : Session :=
  { s with editor := { s.editor with history } }

/-- Close the live slot of the history. -/
def closeSlot (s : Session) : Session := s.withHistory s.editor.history.endLiveSlot

/-- The line that is drawn: the candidate at which the cycle stands, or the line itself. -/
def shownLine (s : Session) : Line :=
  match s.cycle.index.bind (s.candidates[·]?) with
  | some candidate => (Line.empty s.line.capacity).setText candidate
  | none => s.line

/-- What a drawing shows, with hints or without. -/
def view (s : Session) (hints : Bool) : LineView where
  prompt := s.prompt
  line := s.shownLine
  columns := s.columns
  multiline := s.editor.config.multiline
  masked := s.editor.config.masked
  hinter := if hints then s.editor.hinter else none

/-- Write a text to the terminal. -/
def write (s : Session) (t : Text) : Session := { s with output := s.output.write t }

/-- Draw the line, with hints or without. -/
def refreshWith (s : Session) (mode : RefreshMode) (hints : Bool) : Session :=
  let drawing := (s.view hints).draw s.drawState mode
  { s.write drawing.text with
    drawState := drawing.state
    hintsAsked := s.hintsAsked + drawing.hintAsked.toNat
    hintsReleased := s.hintsReleased + drawing.hintReleased.toNat
    inRange := s.inRange && drawing.inRange }

/-- Draw the line. -/
def refresh (s : Session) (mode : RefreshMode) : Session := s.refreshWith mode true

/-- Ring the bell. -/
def ring (s : Session) : Session := s.write ['\x07']

/-- Make a change to the line, if there is one, and draw it. -/
def change (s : Session) (line : Option Line) : Session :=
  match line with
  | some line => { s with line }.refresh .all
  | none => s

/-- Whether a character that has just been typed into the line needs only to be written itself:
on a single row without hints, if it was typed at the end as a cluster of its own and the row is
not full. -/
def isPlainInsertion (s : Session) (atEnd : Bool) (c : Char) : Bool :=
  atEnd && backwardLength s.line.before s.line.after == c.utf8Size
    && promptWidth s.prompt + contentWidth s.editor.config.masked s.line.text < s.columns
    && !s.editor.config.multiline && s.editor.hinter.isNone

/-- Type a character. -/
def insertChar (s : Session) (c : Char) : Session :=
  match s.line.insert [c] with
  | none => s
  | some line =>
    let atEnd := s.line.atEnd
    let s := { s with line }
    if s.isPlainInsertion atEnd c then
      s.write [if s.editor.config.masked then maskGlyph else c]
    else s.refresh .all

/-- Recall an entry of the history. -/
def browse (s : Session) (direction : BrowseDirection) : Session :=
  let (history, historyIndex, entry) :=
    s.editor.history.browse s.historyIndex s.line.text direction
  { s.withHistory history with historyIndex }.change (entry.map s.line.setText)

/-- Complete the edit with the line as it is. The cursor goes to its end, if the line takes
several rows, and a hint behind it is taken away. -/
def enter (s : Session) : EditEvent × Session :=
  let s := s.closeSlot
  let s := if s.editor.config.multiline then s.change s.line.moveEnd else s
  let s := if s.editor.hinter.isSome then s.refreshWith .all false else s
  (.line s.line.text, s)

/-- Act on a key. -/
def act (s : Session) (k : Key) : Option EditEvent × Session :=
  match k with
  | .enter =>
    let (event, s) := s.enter
    (some event, s)
  | .interrupt => (some .interrupted, s.closeSlot)
  | .deleteOrEnd =>
    if s.line.isEmpty then (some .ended, s.closeSlot) else (none, s.change s.line.delete)
  | .char c => (none, s.insertChar c)
  | .delete => (none, s.change s.line.delete)
  | .backspace => (none, s.change s.line.backspace)
  | .transpose => (none, s.change s.line.transpose)
  | .left => (none, s.change s.line.left)
  | .right => (none, s.change s.line.right)
  | .home => (none, s.change s.line.home)
  | .lineEnd => (none, s.change s.line.moveEnd)
  | .killLine => (none, s.change s.line.clear)
  | .killToEnd => (none, s.change s.line.killToEnd)
  | .deleteWord => (none, s.change s.line.deleteWord)
  | .up => (none, s.browse .older)
  | .down => (none, s.browse .newer)
  | .clearScreen =>
    let s := { s with output := clearScreen s.output, drawState := .initial }
    (none, s.refresh .all)
  | .tab | .escape | .ignored => (none, s)

/-- Go on in the cycle through the candidates, or leave it. The completion key shows the next
candidate, the escape key goes back to the line, and any other key takes the candidate over and is
then acted on. -/
def continueCycle (s : Session) (k : Key) : Option Key × Session :=
  match k with
  | .tab =>
    let cycle := s.cycle.advance s.candidates.length
    let s := { s with cycle }
    let s := if cycle.index = some s.candidates.length then s.ring else s
    (none, s.refresh .all)
  | .escape => (none, { s with cycle := .idle }.refresh .all)
  | k =>
    let line :=
      match s.cycle.index.bind (s.candidates[·]?) with
      | some candidate => s.line.setText candidate
      | none => s.line
    (some k, { s with line, cycle := .idle, candidates := [] }.refresh .all)

/-- Act on a key by completion, if it is a matter of completion. The key comes back if it still
has to be acted on. A cycle without any candidate does not start. -/
def complete (s : Session) (k : Key) : Option Key × Session :=
  if s.cycle.isActive then s.continueCycle k
  else
    match k, s.editor.completer with
    | .tab, some completer =>
      let s := { s with candidates := completer s.line.text }
      if s.candidates.isEmpty then (none, s.ring) else s.continueCycle .tab
    | k, _ => (some k, s)

/-- Read the bytes of a plain line up to its end. -/
def readPlain (drained : Silence) (line : List UInt8) :
    List Reading → FeedResult × List UInt8 × List Reading
  | [] => readSilence drained line []
  | .silent s :: queue => readSilence s line queue
  | .byte b :: queue =>
    if b = 0x0A then (.done (.line (Utf8.lossy line)), [], queue)
    else readPlain drained (line ++ [b]) queue
where
  /-- What comes of a reading without a byte. A line that the end of the input cuts off counts, if
  it is not empty. -/
  readSilence (s : Silence) (line : List UInt8) (queue : List Reading) :
      FeedResult × List UInt8 × List Reading :=
    match s with
    | .notReady => (.more, line, queue)
    | .failed => (.error (.io .device), line, queue)
    | .ended =>
      if line.isEmpty then (.done .ended, [], queue)
      else (.done (.line (Utf8.lossy line)), [], queue)

/-- Read a plain line, or as much of it as has come. -/
def feedPlain (s : Session) : FeedResult × Session :=
  let (r, plainLine, queue) := readPlain s.input.drained s.plainLine s.input.queue
  (r, { s with plainLine, input := { s.input with queue } })

/-- Act on a key, by completion or as it is. -/
def press (s : Session) (k : Key) : FeedResult × Session :=
  match s.complete k with
  | (none, s) => (.more, s)
  | (some k, s) =>
    match s.act k with
    | (some event, s) => (.done event, s)
    | (none, s) => (.more, s)

/-- Read a key and act on it. -/
def feed (s : Session) : FeedResult × Session :=
  if !s.isTerminal then s.feedPlain
  else
    let (r, decoder, input) := s.decoder.read s.input
    let s := { s with decoder, input }
    match r with
    | .key k => s.press k
    | .silent .notReady => (.more, s)
    | .silent .ended => (.done .ended, s.closeSlot)
    | .silent .failed => (.error (.io .device), s)

/-- Erase the line from the terminal. -/
def hide (s : Session) : Session := if s.isTerminal then s.refresh .clean else s

/-- Draw the line where nothing is drawn. -/
def reveal (s : Session) : Session := if s.isTerminal then s.refresh .write else s

/-- A text as it is written above the line: every line of it ends in carriage return and line
feed. -/
def linesAbove (t : Text) : Text :=
  t.flatMap (fun c => if c = '\n' then ['\r', '\n'] else [c])
    ++ (if t.getLast? = some '\n' then [] else ['\r', '\n'])

/-- Write a text above the line. -/
def printAbove (s : Session) (t : Text) : Session := (s.hide.write (linesAbove t)).reveal

/-- Finish a session: the cursor of the terminal goes to a new row. -/
def finish (s : Session) : Session :=
  if s.finished then s
  else
    let s := { s with finished := true }.closeSlot
    if s.isTerminal then s.write ['\n'] else s

end Session

end Typeline
