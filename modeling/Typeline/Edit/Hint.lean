import Typeline.Terminal.ControlSequence

/-!
# Hints

A hint is text that is shown behind the line without being a part of it, in a style of its own.
-/

namespace Typeline

/-- A hint. -/
structure Hint where
  /-- What is shown. -/
  text : Text
  /-- The number of the colour it is shown in. -/
  color : Option Nat
  /-- Whether it is shown in bold. -/
  bold : Bool
  deriving DecidableEq, Repr

/-- A source of hints for a line. -/
abbrev Hinter := Text → Option Hint

namespace Hint

/-- The number of the colour of bold hints for which none is chosen. -/
def white : Nat := 37

/-- The number of the colour of the background. -/
def background : Nat := 49

/-- The sequences before and after a hint that has a style. -/
def style (h : Hint) : Option (Text × Text) :=
  let intensity := if h.bold then 1 else 0
  let sequences (color : Nat) : Text × Text :=
    ((ControlSequence.style intensity color background).text, (ControlSequence.styleSingle 0).text)
  match h.color with
  | some color => some (sequences color)
  | none => if h.bold then some (sequences white) else none

end Hint

end Typeline
