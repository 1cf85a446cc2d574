/-!
# Keys

The keystrokes that editing a line knows, whatever bytes a terminal sends for them.
-/

namespace Typeline

/-- A keystroke. -/
inductive Key where
  /-- A character to insert. -/
  | char (c : Char)
  /-- The line is complete. -/
  | enter
  /-- The edit is to be given up. -/
  | interrupt
  /-- Delete the cluster under the cursor; on an empty line, end the input. -/
  | deleteOrEnd
  /-- Delete the cluster before the cursor. -/
  | backspace
  /-- Delete the cluster under the cursor. -/
  | delete
  /-- Swap the clusters on the two sides of the cursor. -/
  | transpose
  /-- Move the cursor to the left. -/
  | left
  /-- Move the cursor to the right. -/
  | right
  /-- Recall the entry before in the history. -/
  | up
  /-- Recall the entry after in the history. -/
  | down
  /-- Move the cursor to the start of the line. -/
  | home
  /-- Move the cursor to the end of the line. -/
  | lineEnd
  /-- Delete the whole line. -/
  | killLine
  /-- Delete from the cursor to the end of the line. -/
  | killToEnd
  /-- Clear the screen. -/
  | clearScreen
  /-- Delete the word before the cursor. -/
  | deleteWord
  /-- Complete the line. -/
  | tab
  /-- The escape key alone. -/
  | escape
  /-- A key without a meaning. -/
  | ignored
  deriving DecidableEq, Repr

end Typeline
