import Mathlib.Data.List.TakeWhile
import Typeline.Terminal.Screen

/-!
# Cells of a screen

What the events of a stream do to a screen is said cell by cell. A cell that does not exist counts
as blank, so that a screen can be read at any row and any column, and adding rows at the bottom
changes nothing.

In a well-formed screen every row has as many cells as there are columns, and the cursor stands on
one of them. `Screen.place` counts the cells up to the cursor, row by row; a wrap that is pending
counts as a step to the next row. Printing a character of one column draws it in that place and goes
on by one, whether a row ends there or not.

## Main definitions

* `Screen.cell` : the cell in a row and a column.
* `Screen.WellFormed` : rows of equal length with the cursor on one of their cells.
* `Screen.Fresh` : a screen on which nothing is drawn.
* `Screen.clearRow` : erasing the row of the cursor.
* `Screen.place` : the place of the cursor, counted in cells.

## Main results

* `Screen.WellFormed.line_eq` : the text of a row is that of its cells.
* `Screen.cell_put_one`, `Screen.place_put_one` : printing a character of one column.
* `Screen.cell_put_of_fits` : printing a character that fits into the row.
-/

namespace Typeline

namespace Screen

/-- The cell in a row and a column; a cell that does not exist is blank. -/
def cell (s : Screen) (row column : Nat) : Cell :=
  ((s.rows[row]?.getD [])[column]?).getD .blank

/-- Every row has as many cells as there are columns, and the cursor stands on one of them, on the
last one of its row if a wrap is pending. -/
structure WellFormed (s : Screen) : Prop where
  columns_pos : 0 < s.columns
  length_row : ∀ cells ∈ s.rows, cells.length = s.columns
  row_lt : s.row < s.rows.length
  column_lt : s.column < s.columns
  last_of_pending : s.wrapPending = true → s.column + 1 = s.columns

theorem cell_eq_of_getElem? {s : Screen} {row : Nat} {cells : List Cell}
    (h : s.rows[row]? = some cells) (column : Nat) :
    s.cell row column = cells[column]?.getD .blank := by
  rw [cell, h]
  rfl

theorem getElem?_blankRow_getD (columns column : Nat) :
    (blankRow columns)[column]?.getD .blank = .blank := by
  rw [blankRow, List.getElem?_replicate]
  split <;> rfl

/-- Cells where rows are changed at one index. -/
theorem cell_modify {s : Screen} (f : List Cell → List Cell) (hrow : s.row < s.rows.length)
    (row column : Nat) :
    { s with rows := s.rows.modify s.row f }.cell row column =
      if row = s.row then ((f (s.rows[s.row]?.getD []))[column]?).getD .blank
      else s.cell row column := by
  rw [cell, List.getElem?_modify]
  by_cases h : row = s.row
  · subst h
    rw [if_pos rfl, List.getElem?_eq_getElem hrow]
    simp
  · rw [if_neg h]
    simp [cell, Ne.symm h]

/-- Behind the last column there is nothing. -/
theorem WellFormed.cell_of_columns_le {s : Screen} (h : s.WellFormed) (row : Nat) {column : Nat}
    (hcolumn : s.columns ≤ column) : s.cell row column = .blank := by
  cases hrow : s.rows[row]? with
  | none => rw [cell, hrow]; rfl
  | some cells =>
    have hlength := h.length_row cells (List.mem_of_getElem? hrow)
    rw [cell_eq_of_getElem? hrow, List.getElem?_eq_none (by omega)]
    rfl

/-! ### What can be read -/

/-- A row in which nothing is drawn shows no text. -/
theorem rowText_of_blank {cells : List Cell} (h : ∀ c ∈ cells, c = .blank) :
    rowText cells = [] := by
  have hspaces : ∀ c ∈ (cells.flatMap Cell.shown).reverse, isBlank c = true := by
    intro c hc
    obtain ⟨cell, hcell, hshown⟩ := List.mem_flatMap.mp (List.mem_reverse.mp hc)
    rw [h cell hcell] at hshown
    rw [List.mem_singleton.mp hshown]
    rfl
  rw [rowText, trimEnd, List.dropWhile_eq_nil_iff.mpr hspaces]
  rfl

/-- The text of a row is that of its cells. -/
theorem WellFormed.line_eq {s : Screen} (h : s.WellFormed) (row : Nat) :
    s.line row = rowText ((List.range s.columns).map (s.cell row)) := by
  cases hrow : s.rows[row]? with
  | none =>
    have hblank : ∀ c ∈ (List.range s.columns).map (s.cell row), c = .blank := by
      intro c hc
      obtain ⟨column, -, rfl⟩ := List.mem_map.mp hc
      rw [cell, hrow]
      rfl
    rw [line, hrow, rowText_of_blank hblank]
    rfl
  | some cells =>
    have hlength := h.length_row cells (List.mem_of_getElem? hrow)
    have hcells : (List.range s.columns).map (s.cell row) = cells := by
      refine List.ext_getElem (by simp [hlength]) fun column hleft hright => ?_
      rw [List.getElem_map, List.getElem_range, cell_eq_of_getElem? hrow,
        List.getElem?_eq_getElem hright]
      rfl
    rw [line, hrow, hcells]
    rfl

/-- Rows with the same cells show the same text. -/
theorem WellFormed.line_congr {s s' : Screen} (h : s.WellFormed) (h' : s'.WellFormed)
    (hcolumns : s'.columns = s.columns) {row row' : Nat}
    (hcells : ∀ column, s'.cell row' column = s.cell row column) : s'.line row' = s.line row := by
  rw [h.line_eq, h'.line_eq, hcolumns, funext hcells]

theorem WellFormed.line_of_blank {s : Screen} (h : s.WellFormed) {row : Nat}
    (hblank : ∀ column, s.cell row column = .blank) : s.line row = [] := by
  rw [h.line_eq]
  refine rowText_of_blank fun c hc => ?_
  obtain ⟨column, -, rfl⟩ := List.mem_map.mp hc
  exact hblank column

/-! ### Screens on which nothing is drawn -/

/-- Nothing is drawn, and the cursor stands at the start of a row. -/
structure Fresh (s : Screen) : Prop where
  wellFormed : s.WellFormed
  cell_eq : ∀ row column, s.cell row column = .blank
  column_eq : s.column = 0
  wrapPending_eq : s.wrapPending = false
  afterJoiner_eq : s.afterJoiner = false

theorem fresh_blank (columns : Nat) : (blank columns).Fresh where
  wellFormed := {
    columns_pos := Nat.le_max_right columns 1
    length_row := by
      intro cells hmem
      rw [List.mem_singleton.mp hmem]
      exact List.length_replicate
    row_lt := Nat.one_pos
    column_lt := Nat.le_max_right columns 1
    last_of_pending := fun h => Bool.noConfusion h }
  cell_eq row column := by
    rw [cell, blank]
    cases row with
    | zero => exact getElem?_blankRow_getD _ column
    | succ row => rfl
  column_eq := rfl
  wrapPending_eq := rfl
  afterJoiner_eq := rfl

/-! ### Moves -/

section MoveTo

variable (s : Screen) (row column : Nat)

@[simp] theorem moveTo_row : (s.moveTo row column).row = row := rfl

@[simp] theorem moveTo_column : (s.moveTo row column).column = min column (s.columns - 1) := rfl

@[simp] theorem moveTo_columns : (s.moveTo row column).columns = s.columns := rfl

@[simp] theorem moveTo_wrapPending : (s.moveTo row column).wrapPending = false := rfl

/-- A move changes no cell; the rows that it adds are blank. -/
@[simp] theorem cell_moveTo (r c : Nat) : (s.moveTo row column).cell r c = s.cell r c := by
  rw [cell, cell, moveTo, extendRows]
  by_cases h : r < s.rows.length
  · rw [List.getElem?_append_left h]
  · rw [List.getElem?_append_right (by omega), List.getElem?_eq_none (l := s.rows) (by omega),
      List.getElem?_replicate]
    split
    · exact getElem?_blankRow_getD s.columns c
    · rfl

end MoveTo

theorem WellFormed.moveTo {s : Screen} (h : s.WellFormed) (row column : Nat) :
    (s.moveTo row column).WellFormed where
  columns_pos := h.columns_pos
  length_row := by
    intro cells hmem
    rcases List.mem_append.mp hmem with hmem | hmem
    · exact h.length_row cells hmem
    · rw [List.eq_of_mem_replicate hmem, blankRow, List.length_replicate]
      rfl
  row_lt := by
    change row < (s.rows ++ List.replicate (row + 1 - s.rows.length) (blankRow s.columns)).length
    rw [List.length_append, List.length_replicate]
    omega
  column_lt := by
    have := h.columns_pos
    rw [moveTo_column, moveTo_columns]
    omega
  last_of_pending hpending := absurd hpending (by simp)

/-- A cursor that stands at the start of its row may be moved there. -/
theorem Fresh.of_probed {s s' : Screen} (h : s.Fresh) (hprobed : s' = s ∨ s' = s.moveTo s.row 0) :
    s'.Fresh := by
  rcases hprobed with rfl | rfl
  · exact h
  · exact ⟨h.wellFormed.moveTo _ _, fun r c => by rw [cell_moveTo, h.cell_eq], Nat.zero_min _, rfl,
      rfl⟩

theorem moveTo_moveTo (s : Screen) (row column column' : Nat) :
    (s.moveTo row column).moveTo row column' = s.moveTo row column' := by
  have hrows : extendRows s.columns (extendRows s.columns s.rows row) row =
      extendRows s.columns s.rows row := by
    generalize hextended : extendRows s.columns s.rows row = extended
    have hlength : row + 1 ≤ extended.length := by
      rw [← hextended, extendRows, List.length_append, List.length_replicate]
      omega
    rw [extendRows, show row + 1 - extended.length = 0 by omega]
    exact List.append_nil extended
  simp only [moveTo, hrows]

/-! ### Erasing -/

theorem WellFormed.of_rows {s : Screen} (h : s.WellFormed) {rows : List (List Cell)}
    (hlength : rows.length = s.rows.length) (hrows : ∀ cells ∈ rows, cells.length = s.columns) :
    { s with rows }.WellFormed where
  columns_pos := h.columns_pos
  length_row := hrows
  row_lt := by rw [hlength]; exact h.row_lt
  column_lt := h.column_lt
  last_of_pending := h.last_of_pending

theorem WellFormed.modify {s : Screen} (h : s.WellFormed) {f : List Cell → List Cell}
    (hf : ∀ cells, cells.length = s.columns → (f cells).length = s.columns) :
    { s with rows := s.rows.modify s.row f }.WellFormed := by
  refine h.of_rows (List.length_modify ..) fun cells hmem => ?_
  obtain ⟨i, hi, rfl⟩ := List.mem_iff_getElem.mp hmem
  rw [List.getElem_modify]
  split
  · exact hf _ (h.length_row _ (List.getElem_mem _))
  · exact h.length_row _ (List.getElem_mem _)

theorem WellFormed.length_cursorRow {s : Screen} (h : s.WellFormed) :
    (s.rows[s.row]?.getD []).length = s.columns := by
  rw [List.getElem?_eq_getElem h.row_lt]
  exact h.length_row _ (List.getElem_mem _)

theorem eraseLine_zero (s : Screen) : s.eraseLine 0 = { s with
    rows := s.rows.modify s.row fun cells =>
      cells.take s.column ++ blankRow (cells.length - s.column) } :=
  rfl

theorem cell_eraseLine {s : Screen} (h : s.WellFormed) (r c : Nat) :
    (s.eraseLine 0).cell r c = if r = s.row ∧ s.column ≤ c then .blank else s.cell r c := by
  rw [eraseLine_zero, cell_modify _ h.row_lt]
  by_cases hr : r = s.row
  · subst hr
    have hlength := h.length_cursorRow
    have hcolumn := h.column_lt
    have htake : ((s.rows[s.row]?.getD []).take s.column).length = s.column := by
      rw [List.length_take]
      omega
    rw [if_pos rfl]
    by_cases hc : s.column ≤ c
    · rw [if_pos ⟨rfl, hc⟩, List.getElem?_append_right (by omega)]
      exact getElem?_blankRow_getD _ _
    · rw [if_neg fun hboth => hc hboth.2, List.getElem?_append_left (by omega),
        List.getElem?_take_of_lt (by omega)]
      rfl
  · rw [if_neg hr, if_neg fun hboth => hr hboth.1]

theorem WellFormed.eraseLine {s : Screen} (h : s.WellFormed) (part : Nat) :
    (s.eraseLine part).WellFormed := by
  have hcolumn := h.column_lt
  refine h.modify fun cells hcells => ?_
  split <;> simp [blankRow, hcells] <;> omega

/-- The cursor goes to the start of its row, and the row is erased. -/
def clearRow (s : Screen) : Screen := (s.moveTo s.row 0).eraseLine 0

section ClearRow

variable (s : Screen)

@[simp] theorem clearRow_row : s.clearRow.row = s.row := rfl

@[simp] theorem clearRow_column : s.clearRow.column = 0 := Nat.zero_min _

end ClearRow

theorem WellFormed.clearRow {s : Screen} (h : s.WellFormed) : s.clearRow.WellFormed :=
  (h.moveTo s.row 0).eraseLine 0

theorem cell_clearRow {s : Screen} (h : s.WellFormed) (r c : Nat) :
    s.clearRow.cell r c = if r = s.row then .blank else s.cell r c := by
  rw [clearRow, cell_eraseLine (h.moveTo s.row 0), cell_moveTo, moveTo_row, moveTo_column]
  simp

theorem cell_eraseDisplay (s : Screen) (r c : Nat) : (s.eraseDisplay 2).cell r c = .blank := by
  rw [eraseDisplay, if_pos rfl, cell, List.getElem?_map]
  cases s.rows[r]? with
  | none => rfl
  | some cells => exact getElem?_blankRow_getD cells.length c

theorem WellFormed.eraseDisplay {s : Screen} (h : s.WellFormed) (part : Nat) :
    (s.eraseDisplay part).WellFormed := by
  rw [Screen.eraseDisplay]
  split
  · refine h.of_rows (List.length_map _) fun erased hmem => ?_
    obtain ⟨cells, hcells, rfl⟩ := List.mem_map.mp hmem
    rw [blankRow, List.length_replicate, h.length_row cells hcells]
  · exact h

/-! ### Printing -/

theorem length_putCells (cells : List Cell) (column : Nat) (c : Char) (width : Nat) :
    (putCells cells column c width).length = cells.length := by
  rw [putCells]
  split <;> simp

/-- Printing into a row that has room for the character. -/
theorem put_of_fits {s : Screen} {width : Nat} (hpending : s.wrapPending = false)
    (hfits : s.column + width ≤ s.columns) (c : Char) :
    s.put c width = { s with
      rows := s.rows.modify s.row fun cells => putCells cells s.column c width
      column := if s.columns ≤ s.column + width then s.columns - 1 else s.column + width
      wrapPending := s.columns ≤ s.column + width } := by
  have hstay : ¬(s.wrapPending || decide (s.columns < s.column + width)) = true := by
    simp only [hpending, Bool.false_or, decide_eq_true_eq]
    omega
  rw [put, if_neg hstay]

/-- Printing where there is no room starts a new row. -/
theorem put_of_wraps {s : Screen} {width : Nat}
    (h : s.wrapPending = true ∨ s.columns < s.column + width) (hfits : width ≤ s.columns)
    (c : Char) : s.put c width = (s.moveTo (s.row + 1) 0).put c width := by
  have hwraps : (s.wrapPending || decide (s.columns < s.column + width)) = true := by
    simpa using h
  rw [put_of_fits (s := s.moveTo (s.row + 1) 0) rfl (by simpa using hfits), put, if_pos hwraps]

theorem WellFormed.put {s : Screen} (h : s.WellFormed) (c : Char) (width : Nat) :
    (s.put c width).WellFormed := by
  have hput (t : Screen) (ht : t.WellFormed) : { t with
      rows := t.rows.modify t.row fun cells => putCells cells t.column c width
      column := if t.columns ≤ t.column + width then t.columns - 1 else t.column + width
      wrapPending := decide (t.columns ≤ t.column + width) }.WellFormed := by
    have hcells := ht.modify (f := fun cells => putCells cells t.column c width)
      fun cells hlength => (length_putCells ..).trans hlength
    have hpos := ht.columns_pos
    refine ⟨hpos, hcells.length_row, hcells.row_lt, ?_, fun hpending => ?_⟩
    · change (if t.columns ≤ t.column + width then _ else _) < t.columns
      split <;> omega
    · rw [decide_eq_true_eq] at hpending
      change (if t.columns ≤ t.column + width then _ else _) + 1 = t.columns
      rw [if_pos hpending]
      omega
  rw [Screen.put]
  split
  · exact hput _ (h.moveTo _ _)
  · exact hput _ h

/-- The cells of a row into which a character of one or two columns is put. -/
theorem getElem?_putCells {cells : List Cell} {column width : Nat} (hwidth : width = 1 ∨ width = 2)
    (hfits : column + width ≤ cells.length) (c : Char) (i : Nat) :
    ((putCells cells column c width)[i]?).getD .blank =
      if i = column then .glyph [c]
      else if i = column + 1 ∧ width = 2 then .wideTail
      else cells[i]?.getD .blank := by
  rcases hwidth with rfl | rfl
  · rw [putCells, if_neg (by decide), List.getElem?_set]
    by_cases hi : i = column
    · subst hi
      rw [if_pos rfl, if_pos rfl, if_pos (by omega)]
      rfl
    · rw [if_neg (Ne.symm hi), if_neg hi, if_neg (by omega)]
  · rw [putCells, if_pos rfl, List.getElem?_set, List.length_set]
    by_cases hi : i = column + 1
    · subst hi
      rw [if_pos rfl, if_pos (by omega), if_neg (by omega), if_pos ⟨rfl, rfl⟩]
      rfl
    · rw [if_neg (Ne.symm hi), List.getElem?_set]
      by_cases hi' : i = column
      · subst hi'
        rw [if_pos rfl, if_pos rfl, if_pos (by omega)]
        rfl
      · rw [if_neg (Ne.symm hi'), if_neg hi', if_neg (by omega)]

/-- Printing where there is room draws the character at the cursor and changes no other cell. -/
theorem cell_put_of_fits {s : Screen} (h : s.WellFormed) {width : Nat}
    (hwidth : width = 1 ∨ width = 2) (hpending : s.wrapPending = false)
    (hfits : s.column + width ≤ s.columns) (c : Char) (row column : Nat) :
    (s.put c width).cell row column =
      if row = s.row ∧ column = s.column then .glyph [c]
      else if row = s.row ∧ column = s.column + 1 ∧ width = 2 then .wideTail
      else s.cell row column := by
  rw [put_of_fits hpending hfits]
  have hlength := h.length_cursorRow
  have hcell := cell_modify (fun cells => putCells cells s.column c width) h.row_lt row column
  change Screen.cell { s with rows := s.rows.modify s.row _ } row column = _
  rw [hcell, getElem?_putCells hwidth (by omega)]
  by_cases hrow : row = s.row
  · subst hrow
    simp [cell]
  · simp [hrow]

/-! ### Counting cells -/

/-- The place of the cursor, counted in cells row by row. A wrap that is pending counts as a step to
the next row. -/
def place (s : Screen) : Nat := s.row * s.columns + s.column + s.wrapPending.toNat

private theorem mul_add_eq_iff {n r c r' c' : Nat} (hc : c < n) (hc' : c' < n) :
    r * n + c = r' * n + c' ↔ r = r' ∧ c = c' := by
  refine ⟨fun h => ?_, fun h => by rw [h.1, h.2]⟩
  have hr : r = r' := by
    have hdiv := congrArg (· / n) h
    simpa [Nat.mul_comm _ n, Nat.mul_add_div (by omega : 0 < n), Nat.div_eq_of_lt hc,
      Nat.div_eq_of_lt hc'] using hdiv
  subst hr
  exact ⟨rfl, by omega⟩

theorem place_of_not_pending {s : Screen} (h : s.wrapPending = false) :
    s.place = s.row * s.columns + s.column := by
  rw [place, h]
  rfl

/-- A wrap moves the cursor, but it stays in its place. -/
theorem place_wrap {s : Screen} (h : s.WellFormed) (hpending : s.wrapPending = true) :
    (s.moveTo (s.row + 1) 0).place = s.place := by
  have hlast := h.last_of_pending hpending
  rw [place, place, hpending, moveTo_row, moveTo_columns, moveTo_column, moveTo_wrapPending,
    Nat.succ_mul]
  simp only [Bool.toNat_false, Bool.toNat_true]
  omega

theorem columns_put (s : Screen) (c : Char) (width : Nat) :
    (s.put c width).columns = s.columns := by
  rw [put]
  split <;> rfl

section PutOne

variable {s : Screen} (h : s.WellFormed) (c : Char)

include h

theorem put_one_of_pending (hpending : s.wrapPending = true) :
    s.put c 1 = (s.moveTo (s.row + 1) 0).put c 1 :=
  put_of_wraps (Or.inl hpending) h.columns_pos c

theorem place_put_one : (s.put c 1).place = s.place + 1 := by
  have hfree (t : Screen) (ht : t.WellFormed) (hpending : t.wrapPending = false) :
      (t.put c 1).place = t.place + 1 := by
    have hcolumn := ht.column_lt
    rw [put_of_fits hpending hcolumn, place_of_not_pending hpending, place]
    dsimp only
    by_cases hfull : t.columns ≤ t.column + 1
    · rw [if_pos hfull, decide_eq_true hfull, Bool.toNat_true]
      omega
    · rw [if_neg hfull, decide_eq_false hfull, Bool.toNat_false]
      omega
  by_cases hpending : s.wrapPending = true
  · rw [put_one_of_pending h c hpending, hfree _ (h.moveTo _ _) rfl, place_wrap h hpending]
  · exact hfree s h (by simpa using hpending)

/-- Printing a character of one column draws it in the place of the cursor. -/
theorem cell_put_one (row : Nat) {column : Nat} (hcolumn : column < s.columns) :
    (s.put c 1).cell row column =
      if row * s.columns + column = s.place then .glyph [c] else s.cell row column := by
  have hfree (t : Screen) (ht : t.WellFormed) (hpending : t.wrapPending = false)
      (hcolumn : column < t.columns) : (t.put c 1).cell row column =
      if row * t.columns + column = t.place then .glyph [c] else t.cell row column := by
    rw [cell_put_of_fits ht (Or.inl rfl) hpending ht.column_lt, place_of_not_pending hpending]
    simp [mul_add_eq_iff hcolumn ht.column_lt]
  by_cases hpending : s.wrapPending = true
  · rw [put_one_of_pending h c hpending, hfree _ (h.moveTo _ _) rfl hcolumn, place_wrap h hpending,
      cell_moveTo]
    rfl
  · exact hfree s h (by simpa using hpending) hcolumn

/-- Printing a character of one column leaves the cursor in the row in which it is drawn. -/
theorem row_put_one : (s.put c 1).row = s.place / s.columns := by
  have hfree (t : Screen) (ht : t.WellFormed) (hpending : t.wrapPending = false) :
      (t.put c 1).row = t.place / t.columns := by
    rw [put_of_fits hpending ht.column_lt, place_of_not_pending hpending, Nat.mul_comm,
      Nat.mul_add_div ht.columns_pos, Nat.div_eq_of_lt ht.column_lt]
    rfl
  by_cases hpending : s.wrapPending = true
  · rw [put_one_of_pending h c hpending, hfree _ (h.moveTo _ _) rfl, place_wrap h hpending]
    rfl
  · exact hfree s h (by simpa using hpending)

end PutOne

end Screen

end Typeline
