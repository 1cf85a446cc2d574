import Typeline.Text.Decimal

/-!
# Errors

The causes for which reading a line, keeping a history or changing the mode of a terminal can
fail, and the wording that reports them.
-/

namespace Typeline

/-- A failure of a device or of a file. -/
inductive IoFailure where
  /-- The device reported a failure. -/
  | device
  /-- There is no such file, or no such directory to hold it. -/
  | notFound
  /-- A directory stands where a file is expected. -/
  | isDirectory
  deriving DecidableEq, Repr

/-- Why an edit, or an operation on the things it uses, failed. -/
inductive EditError where
  /-- Reading or writing failed. -/
  | io (failure : IoFailure)
  /-- A line buffer without room for any text was asked for. -/
  | bufferCapacity
  /-- A history without room for any entry was asked for. -/
  | historyLength (length : Nat)
  /-- The input is not a terminal. -/
  | notATerminal
  /-- The mode of the terminal could not be changed. -/
  | rawMode (reason : String)
  deriving DecidableEq, Repr

namespace EditError

/-- The sentence that reports an error. -/
def message : EditError → String
  | .io .device => "device failed"
  | .io .notFound => "No such file or directory (os error 2)"
  | .io .isDirectory => "Is a directory (os error 21)"
  | .bufferCapacity => "line buffer capacity must be greater than zero"
  | .historyLength length =>
    "history max length must be at least 1, got " ++ String.ofList (decimal length)
  | .notATerminal => "stdin is not a tty"
  | .rawMode reason => "failed to change terminal mode: " ++ reason

/-- The code under which an error is filed. -/
def code : EditError → String
  | .io _ => "r3bl_line_editor::io"
  | .bufferCapacity => "r3bl_line_editor::config::buffer_capacity"
  | .historyLength _ => "r3bl_line_editor::config::history_len"
  | .notATerminal => "r3bl_line_editor::env::not_a_tty"
  | .rawMode _ => "r3bl_line_editor::env::raw_mode"

/-- Advice on how to avoid an error. -/
def help : EditError → Option String
  | .bufferCapacity => some "Set `EditorConfig::buffer_capacity` to at least 1"
  | .notATerminal => some "Set `R3BL_LINE_EDITOR_ASSUME_TTY` to edit piped input"
  | _ => none

end EditError

end Typeline
