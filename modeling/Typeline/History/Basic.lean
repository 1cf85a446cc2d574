import Typeline.Error

/-!
# History of lines

A history keeps the last lines that were entered, oldest first and never two equal ones in a row.

While a line is edited, the newest entry is a live slot for that line. Browsing moves an index
away from it, one entry at a time; the entry that is left is overwritten by the line as it is
then, so that coming back finds the line as it was left.

## Main definitions

* `History.add` : adding a line.
* `History.beginLiveSlot`, `History.endLiveSlot` : the slot of an edit.
* `History.browse` : going to an older or a newer entry.
-/

namespace Typeline

/-- A direction of browsing. -/
inductive BrowseDirection where
  /-- To the entry before, which is older. -/
  | older
  /-- To the entry after, which is newer. -/
  | newer
  deriving DecidableEq, Repr

/-- A history. -/
structure History where
  /-- The entries, oldest first. -/
  entries : List Text
  /-- The largest number of entries. -/
  maxLength : Nat
  /-- Whether the newest entry is the live slot of an edit. -/
  hasLiveSlot : Bool
  deriving DecidableEq, Repr

namespace History

/-- The largest number of entries if none is chosen. -/
def defaultMaxLength : Nat := 100

/-- A history without entries. -/
def empty : History := ⟨[], defaultMaxLength, false⟩

/-- The number of entries. -/
def length (h : History) : Nat := h.entries.length

/-- The entry at an index, counted from the oldest one. -/
def get? (h : History) (index : Nat) : Option Text := h.entries[index]?

/-- The entries without the oldest one, if there is no room for another one. -/
def withRoom (h : History) : List Text :=
  if h.maxLength ≤ h.entries.length then h.entries.drop 1 else h.entries

/-- Add a line. A line that equals the newest entry is not added. -/
def add (h : History) (line : Text) : Option History :=
  if h.maxLength = 0 ∨ h.entries.getLast? = some line then none
  else some { h with entries := h.withRoom ++ [line] }

/-- Add lines one after another. -/
def addAll (h : History) (lines : List Text) : History :=
  lines.foldl (fun h line => (h.add line).getD h) h

/-- Choose the largest number of entries; the oldest ones are dropped until the others fit. -/
def setMaxLength (h : History) (n : Nat) : Except EditError History :=
  if n = 0 then .error (.historyLength n)
  else .ok { h with entries := h.entries.drop (h.entries.length - n), maxLength := n }

/-- A history without entries and with a chosen largest number of them. -/
def ofMaxLength (n : Nat) : Except EditError History := empty.setMaxLength n

/-- Open the live slot at the start of an edit. In a full history the oldest entry makes room. -/
def beginLiveSlot (h : History) : History :=
  if h.hasLiveSlot then h
  else { h with entries := h.withRoom ++ [[]], hasLiveSlot := true }

/-- Close the live slot at the end of an edit. -/
def endLiveSlot (h : History) : History :=
  if h.hasLiveSlot then { h with entries := h.entries.dropLast, hasLiveSlot := false } else h

/-- Browse by one entry. The index counts from the newest entry. The history with the entry that
is left overwritten by `line` comes back, with the new index and the entry found there; there is
none beyond the ends, nor in a history of one entry. -/
def browse (h : History) (index : Nat) (line : Text) (direction : BrowseDirection) :
    History × Nat × Option Text :=
  let length := h.entries.length
  if length ≤ 1 then (h, index, none)
  else
    let h := { h with entries := h.entries.set (length - 1 - min index (length - 1)) line }
    match direction, index with
    | .newer, 0 => (h, 0, none)
    | .newer, index + 1 =>
      if length ≤ index then (h, length - 1, none)
      else (h, index, h.get? (length - 1 - index))
    | .older, index =>
      if length ≤ index + 1 then (h, length - 1, none)
      else (h, index + 1, h.get? (length - 1 - (index + 1)))

end History

end Typeline
