import Typeline.Proofs.Terminal.Blocks

/-!
# Lines that are written to a screen

A line that ends in carriage return and line feed takes at least one row of the screen, and more if
it is longer than a row. If its last row is full, the cursor is still in that row, so no row is left
out. Several lines are shown one below the other.

If rows are put in at some place of a screen, what was above stays where it is, and what was below
moves down by as many rows, and the cursor with it.

## Main definitions

* `wrapLine` : the rows that a line takes.
* `Screen.HoldsRows` : from a row on the screen shows some rows.
* `Screen.InsertsRows` : rows are put in at some place of a screen.

## Main results

* `Screen.Vacant.shows_lines` : writing lines.
-/

namespace Typeline

/-- The rows that a line takes on a screen of some columns. An empty line takes one. -/
def wrapLine (columns : Nat) (l : Text) : List Text :=
  (List.range ((l.length - 1) / columns + 1)).map fun i => (l.drop (i * columns)).take columns

/-- What a row shows in a column. -/
def textCell (row : Text) (column : Nat) : Cell :=
  ((row.map fun c => Cell.glyph [c])[column]?).getD .blank

private theorem length_wrapLine (columns : Nat) (l : Text) :
    (wrapLine columns l).length = (l.length - 1) / columns + 1 := by
  rw [wrapLine, List.length_map, List.length_range]

/-- The rows of a line are those of the block that it is shown as. -/
theorem blockCell_eq_textCell {columns top i column : Nat} {l : Text}
    (hi : i < (wrapLine columns l).length) (hcolumn : column < columns) :
    blockCell columns top l (top + i) column = textCell (wrapLine columns l)[i] column := by
  have hrow : (wrapLine columns l)[i] = (l.drop (i * columns)).take columns := by
    simp only [wrapLine, List.getElem_map, List.getElem_range]
  rw [blockCell_of_top_le (Nat.le_add_right top i), hrow, textCell, Nat.add_sub_cancel_left,
    List.map_take, List.map_drop, List.getElem?_take_of_lt hcolumn, List.getElem?_drop]

namespace Screen

/-- From a row on the screen shows some rows. What is below them is left open. -/
def HoldsRows (s : Screen) (top : Nat) (rows : List Text) : Prop :=
  ∀ i column, (hi : i < rows.length) → column < s.columns →
    s.cell (top + i) column = textCell rows[i] column

/-- Rows are put in at some place of a screen. -/
structure InsertsRows (s s' : Screen) (top : Nat) (rows : List Text) : Prop where
  above : s.SameAbove s' top
  inserted : s'.HoldsRows top rows
  below : ∀ row column, top ≤ row → s'.cell (row + rows.length) column = s.cell row column
  row_eq : s'.row = s.row + rows.length
  column_eq : s'.column = s.column

theorem HoldsRows.append {s s' : Screen} {top : Nat} {rows rows' : List Text}
    (h : s.HoldsRows top rows) (hcolumns : s'.columns = s.columns)
    (hsame : s.SameAbove s' (top + rows.length)) (h' : s'.HoldsRows (top + rows.length) rows') :
    s'.HoldsRows top (rows ++ rows') := by
  intro i column hi hcolumn
  rw [List.length_append] at hi
  by_cases hfirst : i < rows.length
  · rw [hsame (top + i) column (by omega), h i column hfirst (by omega),
      List.getElem_append_left hfirst]
  · have hheld := h' (i - rows.length) column (by omega) hcolumn
    rw [show top + rows.length + (i - rows.length) = top + i by omega] at hheld
    rw [hheld, List.getElem_append_right (by omega)]

theorem HoldsBlock.holdsRows {s : Screen} {top : Nat} {l : Text} (h : s.HoldsBlock top l) :
    s.HoldsRows top (wrapLine s.columns l) := by
  intro i column hi hcolumn
  rw [h (top + i) column (Nat.le_add_right top i) hcolumn, blockCell_eq_textCell hi hcolumn]

/-- What ends a line. -/
theorem shows_lineEnd (s : Screen) : s.Shows ['\r', '\n'] (s.moveTo (s.row + 1) 0) := by
  have hshows := s.shows_return.append (s.moveTo s.row 0).shows_lineFeed
  have hsame : (s.moveTo s.row 0).moveTo (s.row + 1) (min 0 (s.columns - 1)) =
      s.moveTo (s.row + 1) 0 := by
    have hrows : extendRows s.columns (extendRows s.columns s.rows s.row) (s.row + 1) =
        extendRows s.columns s.rows (s.row + 1) := by
      rw [extendRows, extendRows, extendRows, List.length_append, List.length_replicate,
        List.append_assoc, List.replicate_append_replicate]
      congr 2
      omega
    simp only [moveTo, Nat.zero_min, hrows]
  exact hsame ▸ hshows

namespace Vacant

variable {s : Screen} (h : s.Vacant)

include h

/-- Writing a line. -/
theorem shows_line {l : Text} (hl : ∀ c ∈ l, charWidth c = 1) :
    ∃ s', s.Shows (l ++ ['\r', '\n']) s' ∧ s'.Vacant ∧
      s'.row = s.row + (wrapLine s.columns l).length ∧ s.SameAbove s' s.row ∧
      s'.HoldsRows s.row (wrapLine s.columns l) := by
  have hs := h.wellFormed
  have hshows := (shows_putAll h.afterJoiner_eq fun c hc => hl c hc ▸ Nat.one_pos).1
  have hrow := row_putAll_of_start hs h.column_eq h.wrapPending_eq hl
  have hsame := sameAbove_putAll hs h.column_eq h.wrapPending_eq hl
  have hholds := holdsBlock_putAll hs h.column_eq h.wrapPending_eq hl
    fun row column hle _ _ => h.blankFrom row column hle
  have hcolumns := columns_putAll s l
  have hend := Nat.lt_mul_div_succ (l.length - 1) hs.columns_pos
  have hblank : (s.putAll l).BlankFrom ((s.putAll l).row + 1) := by
    refine hholds.blankFrom (hs.putAll l) ?_ ?_
    · rw [hrow, Nat.add_assoc]
      exact Nat.le_add_right _ _
    rw [hrow, hcolumns, Nat.add_assoc, Nat.add_sub_cancel_left, Nat.mul_comm]
    omega
  refine ⟨_, hshows.append (s.putAll l).shows_lineEnd,
    ⟨(hs.putAll l).moveTo _ _, hblank.moveTo _ _, Nat.zero_min _, rfl, rfl⟩, ?_,
    hsame.trans (sameAbove_moveTo _ _ _ _), ?_⟩
  · rw [moveTo_row, hrow, length_wrapLine, Nat.add_assoc]
  · rw [← hcolumns]
    exact (hholds.moveTo _ _).holdsRows

/-- **Writing lines.** They are shown one below the other, from the row of the cursor on. -/
theorem shows_lines {lines : List Text} (hlines : ∀ l ∈ lines, ∀ c ∈ l, charWidth c = 1) :
    ∃ s', s.Shows (lines.flatMap (· ++ ['\r', '\n'])) s' ∧ s'.Vacant ∧
      s'.row = s.row + (lines.flatMap (wrapLine s.columns)).length ∧ s.SameAbove s' s.row ∧
      s'.HoldsRows s.row (lines.flatMap (wrapLine s.columns)) := by
  induction lines generalizing s with
  | nil => exact ⟨s, .nil s, h, rfl, .refl s _, fun i column hi => absurd hi (Nat.not_lt_zero i)⟩
  | cons l lines ih =>
    obtain ⟨s₁, hshows₁, hvacant₁, hrow₁, hsame₁, hholds₁⟩ :=
      h.shows_line (hlines l List.mem_cons_self)
    obtain ⟨s₂, hshows₂, hvacant₂, hrow₂, hsame₂, hholds₂⟩ :=
      ih hvacant₁ fun l' hl' => hlines l' (List.mem_cons_of_mem l hl')
    have hcolumns₁ : s₁.columns = s.columns := hshows₁.keeps.2
    rw [hcolumns₁] at hrow₂ hholds₂
    rw [hrow₁] at hsame₂ hholds₂
    refine ⟨s₂, hshows₁.append hshows₂, hvacant₂, ?_, hsame₁.trans (hsame₂.mono (by omega)), ?_⟩
    · rw [hrow₂, hrow₁, List.flatMap_cons, List.length_append, Nat.add_assoc]
    · exact hholds₁.append hshows₂.keeps.2 hsame₂ hholds₂

end Vacant

end Screen

end Typeline
