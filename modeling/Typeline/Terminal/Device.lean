import Typeline.Text.Utf8

/-!
# Input and output of a terminal

An input device is a queue of what its reads will give, in order, together with what reads give
once the queue is empty. An output device collects the texts written to it; any of the writes may
fail, and then only a beginning of its text, or nothing, gets through.
-/

namespace Typeline

/-- Why a read gives no byte. -/
inductive Silence where
  /-- Nothing has come yet. -/
  | notReady
  /-- The input has ended. -/
  | ended
  /-- The device failed. -/
  | failed
  deriving DecidableEq, Repr

/-- What one read of an input device gives. -/
inductive Reading where
  /-- A byte. -/
  | byte (b : UInt8)
  /-- No byte. -/
  | silent (s : Silence)
  deriving DecidableEq, Repr

/-- An input device. -/
structure Input where
  /-- What reads will give. -/
  queue : List Reading
  /-- What a read gives when the queue is empty. -/
  drained : Silence
  /-- What a read that waits only for a moment gives when the queue is empty. -/
  drainedSoon : Silence
  /-- Whether the device is a terminal. -/
  isTerminal : Bool
  /-- The width that the system reports for the terminal. -/
  columns : Option Nat
  deriving Repr

namespace Input

/-- Take the next reading from the queue, or `last` if there is none. -/
def take (input : Input) (last : Silence) : Reading × Input :=
  match input.queue with
  | [] => (.silent last, input)
  | r :: queue => (r, { input with queue })

/-- Read, however long it takes. -/
def read (input : Input) : Reading × Input := input.take input.drained

/-- Read what comes within a moment. -/
def readSoon (input : Input) : Reading × Input := input.take input.drainedSoon

/-- An input to which more readings have come. -/
def push (input : Input) (more : List Reading) : Input :=
  { input with queue := input.queue ++ more }

/-- An input that gives bytes and then waits or ends; a read that waits only for a moment never
sees the end. -/
def ofBytes (bytes : List UInt8) (waits isTerminal : Bool) (columns : Option Nat) : Input where
  queue := bytes.map .byte
  drained := if waits then .notReady else .ended
  drainedSoon := .notReady
  isTerminal := isTerminal
  columns := columns

end Input

/-- What becomes of one write. -/
inductive WriteOutcome where
  /-- The whole text gets through. -/
  | done
  /-- The write fails when this many characters have got through. -/
  | failed (kept : Nat)
  deriving DecidableEq, Repr

/-- An output device. -/
structure Output where
  /-- All that has been written. -/
  written : Text
  /-- The number of writes that have been tried. -/
  writes : Nat
  /-- What becomes of a write that comes after this many others. -/
  outcome : Nat → WriteOutcome

namespace Output

/-- A device to which nothing has been written. Its writes fail for good after a number of them, or
never if there is no number. -/
def fresh (writesLeft : Option Nat) : Output where
  written := []
  writes := 0
  outcome n := if writesLeft.all (n < ·) then .done else .failed 0

/-- Try to write a text, and tell whether all of it has got through. To write nothing cannot
fail. -/
def tryWrite (output : Output) (t : Text) : Bool × Output :=
  if t.isEmpty then (true, output)
  else match output.outcome output.writes with
    | .done =>
      (true, { output with written := output.written ++ t, writes := output.writes + 1 })
    | .failed kept =>
      (false,
        { output with written := output.written ++ t.take kept, writes := output.writes + 1 })

/-- Write a text and go on if that fails: a later redraw makes up for it. -/
def write (output : Output) (t : Text) : Output := (output.tryWrite t).2

end Output

end Typeline
