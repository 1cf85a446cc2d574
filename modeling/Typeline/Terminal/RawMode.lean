import Typeline.Error

/-!
# Raw mode of a terminal

While a terminal is in raw mode it passes every key on at once. Only a terminal can be put into
that mode, and leaving it twice is no error.
-/

namespace Typeline

/-- The mode of the standard input. -/
structure RawMode where
  /-- Whether the standard input is a terminal. -/
  isTerminal : Bool
  /-- Whether raw mode is on. -/
  enabled : Bool
  deriving DecidableEq, Repr

namespace RawMode

/-- The mode at the start of a program whose standard input is no terminal. -/
def ofPipe : RawMode := ⟨false, false⟩

/-- Why raw mode is refused to an input that is no terminal. -/
def refusal : String := "stdin is not a tty"

/-- Turn raw mode on. -/
def enable (m : RawMode) : Except String RawMode :=
  if m.isTerminal then .ok { m with enabled := true } else .error refusal

/-- Turn raw mode off; nothing happens if it is not on. -/
def disable (m : RawMode) : RawMode := { m with enabled := false }

/-- Turn raw mode on for the time of a task and off again. -/
def guarded (m : RawMode) : Except String RawMode := m.enable.map disable

end RawMode

end Typeline
