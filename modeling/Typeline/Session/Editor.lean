import Typeline.Edit.Completion
import Typeline.Edit.Hint
import Typeline.Edit.Line
import Typeline.History.Basic
import Typeline.Terminal.Settings

/-!
# The editor

What outlives a single edit: the configuration, the settings of the terminal, the sources of
completions and hints, and the history.
-/

namespace Typeline

/-- How lines are edited. -/
structure EditorConfig where
  /-- Whether a long line takes several rows or is scrolled on one. -/
  multiline : Bool
  /-- Whether a glyph is shown for each cluster. -/
  masked : Bool
  /-- The largest number of bytes of a line. -/
  capacity : Nat
  deriving DecidableEq, Repr

/-- The configuration if none is chosen. -/
def EditorConfig.default : EditorConfig := ⟨false, false, Line.defaultCapacity⟩

/-- An editor. -/
structure Editor where
  /-- How lines are edited. -/
  config : EditorConfig
  /-- How the terminal is treated. -/
  terminal : TerminalSettings
  /-- The source of completions. -/
  completer : Option Completer
  /-- The source of hints. -/
  hinter : Option Hinter
  /-- The lines entered before. -/
  history : History

/-- An editor without completions and hints, and with an empty history. -/
def Editor.ofConfig (config : EditorConfig) (terminal : TerminalSettings) : Editor :=
  ⟨config, terminal, none, none, .empty⟩

/-- How an edit ends. -/
inductive EditEvent where
  /-- A line was entered. -/
  | line (t : Text)
  /-- The input ended, or its end was asked for on an empty line. -/
  | ended
  /-- The edit was given up. -/
  | interrupted
  deriving DecidableEq, Repr

end Typeline
