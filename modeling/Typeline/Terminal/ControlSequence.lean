import Typeline.Text.Decimal

/-!
# Control sequences

The sequences by which a program moves the cursor of a terminal, erases parts of the screen and
chooses a style. Each starts with an escape character and a bracket and ends in the letter that
names it.
-/

namespace Typeline

/-- The character that starts every control sequence. -/
def escape : Char := '\x1B'

/-- A request to a terminal. -/
inductive ControlSequence where
  /-- Move the cursor up. -/
  | cursorUp (rows : Nat)
  /-- Move the cursor down. -/
  | cursorDown (rows : Nat)
  /-- Move the cursor to the right. -/
  | cursorForward (columns : Nat)
  /-- Move the cursor to the left. -/
  | cursorBackward (columns : Nat)
  /-- Move the cursor to the first column of the first row. -/
  | cursorHome
  /-- Erase a part of the screen: 2 for all of it. -/
  | eraseDisplay (part : Nat)
  /-- Erase a part of the row of the cursor: 0 from the cursor on, 1 up to it, 2 for all of it. -/
  | eraseLine (part : Nat)
  /-- Ask for a report: 6 for the place of the cursor. -/
  | statusReport (about : Nat)
  /-- Choose an intensity, a colour of the text and a colour of the background. -/
  | style (intensity foreground background : Nat)
  /-- Choose one property of the style: 0 for none. -/
  | styleSingle (property : Nat)
  deriving DecidableEq, Repr

namespace ControlSequence

/-- The start of every sequence. -/
def introducer : Text := [escape, '[']

/-- The parameters and the final letter of a sequence. -/
def body : ControlSequence → Text
  | .cursorUp n => decimal n ++ ['A']
  | .cursorDown n => decimal n ++ ['B']
  | .cursorForward n => decimal n ++ ['C']
  | .cursorBackward n => decimal n ++ ['D']
  | .cursorHome => ['H']
  | .eraseDisplay n => decimal n ++ ['J']
  | .eraseLine n => decimal n ++ ['K']
  | .statusReport n => decimal n ++ ['n']
  | .style a b c => decimal a ++ ';' :: decimal b ++ ';' :: decimal c ++ ['m']
  | .styleSingle n => decimal n ++ ['m']

/-- The text of a sequence. -/
def text (s : ControlSequence) : Text := introducer ++ s.body

end ControlSequence

/-- Erase from the cursor to the end of its row. -/
def eraseToEnd : Text := (ControlSequence.eraseLine 0).text

end Typeline
