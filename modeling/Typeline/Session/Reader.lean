import Typeline.Session.Basic

/-!
# Reading a line

Reads one line to its end. On a terminal that can be used for editing this drives a session; on
one that cannot, the prompt is written and the line is read as it comes, without editing.

## Main definitions

* `Session.run` : feeding a session until its edit is over.
* `readUnedited` : reading a line on a terminal that cannot be used for editing.
* `Editor.readLine` : reading a line on any input.
-/

namespace Typeline

/-- How reading a line ends. -/
inductive ReadResult where
  /-- With an event. -/
  | event (e : EditEvent)
  /-- With an error. -/
  | error (e : EditError)
  /-- Never, since the input stays silent. -/
  | waiting
  deriving DecidableEq, Repr

/-- What is there when a line has been read. -/
structure ReadOutcome where
  /-- How reading ended. -/
  result : ReadResult
  /-- The editor. -/
  editor : Editor
  /-- The keyboard. -/
  input : Input
  /-- The terminal. -/
  output : Output
  /-- How often the hinter was asked for a hint. -/
  hintsAsked : Nat
  /-- How often a hint was handed back. -/
  hintsReleased : Nat
  /-- Whether in all drawings all numbers of columns stayed in range. -/
  inRange : Bool

/-- The bytes of a line without the carriage returns at its end. -/
def withoutReturns (line : List UInt8) : List UInt8 :=
  (line.reverse.dropWhile (· == 0x0D)).reverse

/-- Read a line without editing, keeping no more than `capacity` bytes of it. -/
def readUnedited (capacity : Nat) (drained : Silence) (line : List UInt8) :
    List Reading → ReadResult × List Reading
  | [] => (ending drained line, [])
  | .silent .notReady :: queue => readUnedited capacity drained line queue
  | .silent s :: queue => (ending s line, queue)
  | .byte b :: queue =>
    if b = 0x0A then (.event (.line (Utf8.lossy (withoutReturns line))), queue)
    else
      let line := if line.length < capacity then line ++ [b] else line
      readUnedited capacity drained line queue
where
  /-- What comes of a reading without a byte. -/
  ending (s : Silence) (line : List UInt8) : ReadResult :=
    match s with
    | .notReady => .waiting
    | .failed => .error (.io .device)
    | .ended =>
      if line.isEmpty then .event .ended
      else .event (.line (Utf8.lossy (withoutReturns line)))

namespace Session

/-- Feed a session until its edit is over, at most `bound` times. -/
def run (s : Session) : (bound : Nat) → ReadResult × Session
  | 0 => (.waiting, s)
  | bound + 1 =>
    match s.feed with
    | (.more, s) => s.run bound
    | (.done event, s) => (.event event, s)
    | (.error e, s) => (.error e, s)

/-- A number of keys that an input cannot exceed: a byte gives two keys at most, itself and one
for a character that it cuts short, and the end of the input gives two more. -/
def keyBound (s : Session) : Nat := 2 * s.input.queue.length + 4

end Session

/-- Read a line. -/
def Editor.readLine (editor : Editor) (mode : RawMode) (input : Input) (output : Output)
    (prompt : Text) : ReadOutcome :=
  if (input.isTerminal || editor.terminal.assumeTerminal) && editor.terminal.isPlain then
    let output := output.write prompt
    let (result, queue) :=
      readUnedited editor.config.capacity input.drained [] input.queue
    ⟨result, editor, { input with queue }, output, 0, 0, true⟩
  else match Session.start editor mode input output prompt with
    | .error e => ⟨.error e, editor, input, output, 0, 0, true⟩
    | .ok s =>
      let (result, s) := s.run s.keyBound
      let s := s.finish
      ⟨result, s.editor, s.input, s.output, s.hintsAsked, s.hintsReleased, s.inRange⟩

end Typeline
