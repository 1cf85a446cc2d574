import Typeline.Text.Blank
import Typeline.Text.Decimal

/-!
# Settings of a terminal

Whether input is to be edited although it is no terminal, a fixed width, and the kind of the
terminal. The settings are taken from the environment or given directly.
-/

namespace Typeline

/-- How to treat a terminal. -/
structure TerminalSettings where
  /-- Edit even if the input is no terminal, and never change its mode. -/
  assumeTerminal : Bool
  /-- Use this width instead of asking for it. -/
  fixedColumns : Option Nat
  /-- The kind of the terminal. -/
  kind : Option Text
  deriving DecidableEq, Repr

namespace TerminalSettings

/-- The kinds of terminals that know no control sequences. -/
def plainKinds : List Text := ["dumb".toList, "cons25".toList, "emacs".toList]

/-- Settings from the bytes of three variables of the environment, each set or not. Any text that
is not empty assumes a terminal. A width is a positive number, with blanks around it or none, and
anything else is no width. -/
def ofEnvironment (assume columns kind : Option (List UInt8)) : TerminalSettings where
  assumeTerminal := assume.any fun bytes => !bytes.isEmpty
  fixedColumns := do
    let t ← Utf8.decode? (← columns)
    let n ← count? (trim t)
    if 0 < n then some n else none
  kind := kind.bind Utf8.decode?

/-- Settings for a terminal of a known width. -/
def ofColumns (columns : Nat) : TerminalSettings := ⟨true, some columns, none⟩

/-- Whether the terminal is of a kind that cannot be used for editing; upper and lower case of
ASCII letters are not told apart. -/
def isPlain (s : TerminalSettings) : Bool :=
  s.kind.any fun kind => plainKinds.contains (kind.map Char.toLower)

end TerminalSettings

end Typeline
