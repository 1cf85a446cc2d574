import Typeline.Proofs.Edit.Glyphs
import Typeline.Proofs.Terminal.Blocks

/-!
# Drawing over several rows

A line that takes several rows is drawn as a block: the shown text cut into rows of the width of the
terminal. What is remembered of a drawing, the number of rows and the row of the cursor, describes
the screen relative to the row in which the block starts; `DrawState.Covers` says how. This is all
that the next drawing relies on. It goes down to the last row of the block and erases row after row
on the way back up, so that it starts on a screen on which nothing is drawn.

A hint is shown only where the line leaves columns of the first row free, so it never adds a row. A
line that ends with a full row is sent on to a new row, which is counted although nothing is drawn
there.

## Main definitions

* `DrawState.Covers` : what is remembered of a drawing describes the screen.
* `DrawState.firstRow`, `DrawState.lastRow` : the rows of a drawing that is remembered.
* `LineView.blockRows`, `LineView.blockCursorRow` : the rows of a block, and that of its cursor.
* `LineView.InReach` : the sequences that move the cursor can take it to its place.
* `LineView.BlockShown` : the screen shows the line as a block.

## Main results

* `DrawState.shows_eraseRows` : erasing the rows of a drawing.
* `LineView.DrawsAlone.shows_block` : drawing the line as a block where nothing is drawn.
* `LineView.DrawsAlone.shows_drawRows` : drawing it in the place of the last drawing.
-/

namespace Typeline

/-- What is remembered of a drawing describes a screen on which the drawing starts in the row `top`:
the cursor is in the row that is remembered, and nothing is drawn above the rows of the drawing or
below them. A drawing has at least the row in which it starts. -/
structure DrawState.Covers (d : DrawState) (s : Screen) (top : Nat) : Prop where
  cursorRow_pos : 0 < d.cursorRow
  cursorRow_le : d.cursorRow ≤ max d.rows 1
  rows_le : d.rows ≤ 65536
  row_eq : s.row + 1 = top + d.cursorRow
  blank_above : ∀ row column, row < top → s.cell row column = .blank
  blank_below : ∀ row column, top + max d.rows 1 ≤ row → s.cell row column = .blank

/-! ### Erasing -/

namespace DrawState

/-- The last row of a drawing that is remembered, as seen from the cursor. -/
def lastRow (d : DrawState) (s : Screen) : Nat := s.row + (d.rows - d.cursorRow)

/-- The first row of a drawing that is remembered, as seen from its last row. On a screen that has
not so many rows this is the first row of the screen. -/
def firstRow (d : DrawState) (s : Screen) : Nat := d.lastRow s - (d.rows - 1)

/-- **Erasing.** The rows of a drawing that is remembered are erased from the last one upwards, the
first one excepted, which is then the row of the cursor. Nothing above is touched. -/
theorem shows_eraseRows {d : DrawState} {s : Screen} (hs : s.WellFormed)
    (hreach : d.rows - d.cursorRow ≤ 65535) (hblank : s.BlankFrom (d.lastRow s + 1)) :
    ∃ s', s.Shows (LineView.eraseRows d) s' ∧ s'.WellFormed ∧ s'.row = d.firstRow s ∧
      s'.BlankFrom (s'.row + 1) ∧ s.SameAbove s' s'.row := by
  -- The cursor goes to the last row.
  have hdown : ∃ s₁, s.Shows (if d.cursorRow < d.rows then
        (ControlSequence.cursorDown (d.rows - d.cursorRow)).text else []) s₁ ∧ s₁.WellFormed ∧
      s₁.row = d.lastRow s ∧ ∀ row column, s₁.cell row column = s.cell row column := by
    by_cases hmore : d.cursorRow < d.rows
    · rw [if_pos hmore]
      exact ⟨_, s.shows_cursorDown (by omega) hreach, hs.moveTo _ _, rfl, s.cell_moveTo _ _⟩
    · rw [if_neg hmore]
      exact ⟨s, .nil s, hs, by rw [lastRow]; omega, fun _ _ => rfl⟩
  obtain ⟨s₁, hshows₁, hs₁, hrow₁, hcell₁⟩ := hdown
  have hblank₁ : s₁.BlankFrom (s₁.row + 1) := by
    intro row column hrow
    rw [hrow₁] at hrow
    rw [hcell₁, hblank row column hrow]
  obtain ⟨s', hshows', hs', hrow, hblank', hsame⟩ := Screen.shows_eraseUp hs₁ hblank₁ (d.rows - 1)
  refine ⟨s', hshows₁.append hshows', hs', by rw [hrow, hrow₁, firstRow], hblank', ?_⟩
  exact Screen.SameAbove.trans (fun row column _ => hcell₁ row column) hsame

namespace Covers

variable {d : DrawState} {s : Screen} {top : Nat} (h : d.Covers s top)

include h

theorem lastRow_eq : d.lastRow s = top + (max d.rows 1 - 1) := by
  have hpos := h.cursorRow_pos
  have hle := h.cursorRow_le
  have hrow := h.row_eq
  rw [lastRow]
  omega

private theorem firstRow_eq : d.firstRow s = top := by
  rw [firstRow, h.lastRow_eq]
  omega

theorem blankFrom : s.BlankFrom (d.lastRow s + 1) := by
  intro row column hrow
  rw [h.lastRow_eq] at hrow
  exact h.blank_below row column (by omega)

end Covers

end DrawState

/-! ### Rows and columns of a block -/

/-- The rows that some columns take, seen from the last of them. -/
theorem rowsOf_eq {width : Nat} (hwidth : 0 < width) (used : Nat) :
    LineView.rowsOf used width = if used = 0 then 0 else (used - 1) / width + 1 := by
  rw [LineView.rowsOf]
  by_cases hused : used = 0
  · rw [if_pos hused, hused]
    exact Nat.div_eq_of_lt (by omega)
  · rw [if_neg hused, show used + width - 1 = used - 1 + width by omega,
      Nat.add_div_right _ hwidth]

theorem rowsOf_le {width : Nat} (hwidth : 0 < width) (used : Nat) :
    LineView.rowsOf used width ≤ used := by
  have hle := Nat.div_le_self (used - 1) width
  rw [rowsOf_eq hwidth]
  split <;> omega

/-- A column that does not start a row is in the same row as the one before it. -/
theorem div_pred_of_mod_ne_zero {n width : Nat} (hwidth : 0 < width) (h : n % width ≠ 0) :
    (n - 1) / width = n / width := by
  have hsplit := Nat.div_add_mod n width
  have hlt := Nat.mod_lt n hwidth
  have hpred : n - 1 = width * (n / width) + (n % width - 1) := by omega
  rw [hpred, Nat.mul_add_div hwidth,
    Nat.div_eq_of_lt (show n % width - 1 < width by omega), Nat.add_zero]

/-- A column that starts a row, but not the first one, is in the row after the one before it. -/
theorem div_pred_of_mod_eq_zero {n width : Nat} (hwidth : 0 < width) (hn : 0 < n)
    (h : n % width = 0) : (n - 1) / width + 1 = n / width := by
  have hsplit := Nat.div_add_mod n width
  have hquotient : 0 < n / width := Nat.div_pos (Nat.le_of_dvd hn (Nat.dvd_of_mod_eq_zero h)) hwidth
  obtain ⟨q, hq⟩ : ∃ q, n / width = q + 1 := ⟨n / width - 1, by omega⟩
  have hpred : n - 1 = width * q + (width - 1) := by
    rw [hq, Nat.mul_succ] at hsplit
    omega
  rw [hpred, Nat.mul_add_div hwidth, Nat.div_eq_of_lt (show width - 1 < width by omega), hq]

theorem rowOf_add_width {width : Nat} (hwidth : 0 < width) (cursor : Nat) :
    (cursor + width) / width = cursor / width + 1 :=
  Nat.add_div_right cursor hwidth

/-- A block has room for all that is shown. -/
theorem le_rows_mul_width {width used hint : Nat} (hwidth : 0 < width)
    (hhint : hint = 0 ∨ used + hint ≤ width) :
    used + hint ≤ max (LineView.rowsOf used width) 1 * width := by
  have hone : 1 * width ≤ max (LineView.rowsOf used width) 1 * width :=
    Nat.mul_le_mul_right width (Nat.le_max_right _ _)
  rcases hhint with rfl | hfits
  · by_cases hused : used = 0
    · omega
    · have hlast := Nat.lt_mul_div_succ (used - 1) hwidth
      have hrows : ((used - 1) / width + 1) * width ≤
          max (LineView.rowsOf used width) 1 * width := by
        rw [rowsOf_eq hwidth, if_neg hused]
        exact Nat.mul_le_mul_right width (Nat.le_max_left _ _)
      rw [Nat.mul_comm] at hlast
      omega
  · omega

/-- A line that ends with a full row, and with the cursor, takes a row more. -/
theorem row_of_wrap {width used : Nat} (hwidth : 0 < width) (hused : 0 < used)
    (hfull : used % width = 0) : (used - 1) / width + 1 = used / width ∧
      LineView.rowsOf used width = used / width := by
  have hrow := div_pred_of_mod_eq_zero hwidth hused hfull
  exact ⟨hrow, by rw [rowsOf_eq hwidth, if_neg (by omega), hrow]⟩

/-- Otherwise the cursor is in a row in which something is shown, or in the only row. -/
theorem row_of_no_wrap {width cursor used : Nat} (hwidth : 0 < width) (hcursor : cursor ≤ used)
    (hstay : cursor < used ∨ cursor < width ∨ cursor % width ≠ 0) :
    cursor / width + 1 ≤ max (LineView.rowsOf used width) 1 := by
  rw [rowsOf_eq hwidth]
  by_cases hused : used = 0
  · rw [show cursor = 0 by omega, Nat.zero_div]
    exact Nat.le_max_right _ 1
  · -- The cursor is not below the last column of the line.
    have hrow : cursor / width ≤ (used - 1) / width := by
      by_cases hbefore : cursor < used
      · exact Nat.div_le_div_right (by omega)
      · rcases hstay with hlt | hlt | hmod
        · exact absurd hlt hbefore
        · rw [Nat.div_eq_of_lt hlt]
          exact Nat.zero_le _
        · rw [← div_pred_of_mod_ne_zero hwidth hmod]
          exact Nat.div_le_div_right (by omega)
    rw [if_neg hused]
    omega

/-- The last row in which something is shown. A hint adds no row. -/
theorem last_row_eq {width used hint : Nat} (hwidth : 0 < width)
    (hhint : hint = 0 ∨ used + hint ≤ width) :
    (used + hint - 1) / width = LineView.rowsOf used width - 1 := by
  rw [rowsOf_eq hwidth]
  by_cases hused : used = 0
  · rw [if_pos hused, Nat.div_eq_of_lt (by omega)]
  · rw [if_neg hused]
    rcases hhint with rfl | hfits
    · rfl
    · rw [Nat.div_eq_of_lt (show used + hint - 1 < width by omega),
        Nat.div_eq_of_lt (show used - 1 < width by omega)]

namespace LineView

/-- Whether the line is sent on to a new row. -/
def wraps (v : LineView) : Bool :=
  !v.line.before.isEmpty && v.line.atEnd && v.cursorWidth % v.width == 0

/-- The number of rows of a drawing. -/
def blockRows (v : LineView) : Nat :=
  if v.wraps then rowsOf v.usedWidth v.width + 1 else rowsOf v.usedWidth v.width

/-- The row of the cursor, counted from one. -/
def cursorRow (v : LineView) : Nat := (v.cursorWidth + v.width) / v.width

/-- The row of the block in which a drawing leaves the cursor. A cursor that counts as being below
the last row of the block is left there. -/
def blockCursorRow (v : LineView) : Nat := min v.cursorRow v.blockRows - 1

/-- The sequences that move the cursor can take it to its place: they move it by no more than 65535
rows or columns. -/
structure InReach (v : LineView) : Prop where
  rows : v.multiline = true → v.blockRows - v.cursorRow ≤ 65535
  columns : v.width ≤ 65536 ∨ v.cursorWidth ≤ 65535

instance (v : LineView) : Decidable v.InReach :=
  decidable_of_iff (_ ∧ _) ⟨fun h => ⟨h.1, h.2⟩, fun h => ⟨h.1, h.2⟩⟩

theorem InReach.columns_or {v : LineView} (h : v.InReach) {s : Screen}
    (hcolumns : s.columns = v.width) {column : Nat} (hle : column ≤ v.cursorWidth) :
    column ≤ 65535 ∨ s.columns ≤ 65536 := by
  have hreach := h.columns
  omega

theorem drawRows_text_write (v : LineView) (d : DrawState) : (v.drawRows d .write).text =
    '\r' :: eraseToEnd ++ v.prompt ++ content v.masked v.line.text ++
      v.hintPart.text ++ (if v.wraps then ['\n', '\r'] else []) ++
      (if v.cursorRow < v.blockRows then
        (ControlSequence.cursorUp (v.blockRows - v.cursorRow)).text else []) ++
      '\r' :: forwardBy (v.cursorWidth % v.width) :=
  rfl

theorem cursorRow_eq (v : LineView) : v.cursorRow = v.cursorWidth / v.width + 1 :=
  rowOf_add_width (Nat.le_max_right v.columns 1) _

theorem cursorRow_pos (v : LineView) : 0 < v.cursorRow := by
  rw [cursorRow_eq]
  exact Nat.succ_pos _

/-- A drawing is erased before the next one is written. -/
theorem drawRows_text_all (v : LineView) (d : DrawState) :
    (v.drawRows d .all).text = eraseRows d ++ (v.drawRows d .write).text := by
  simp [drawRows, RefreshMode.cleans, RefreshMode.writes]

theorem width_pos (v : LineView) : 0 < v.width := Nat.le_max_right v.columns 1

theorem blockRows_le (v : LineView) : v.blockRows ≤ v.usedWidth + 1 := by
  have hle := rowsOf_le v.width_pos v.usedWidth
  rw [blockRows]
  split <;> omega

theorem blockRows_sub_le {v : LineView} (hmax : v.usedWidth ≤ 65535) :
    v.blockRows - v.cursorRow ≤ 65535 := by
  have hle := v.blockRows_le
  have hpos := v.cursorRow_pos
  omega

/-- The screen shows prompt, line and hint as a block that starts in the row `top`, with the cursor
behind the columns up to it, and nothing else. -/
structure BlockShown (v : LineView) (s : Screen) (top : Nat) : Prop where
  cell_eq : ∀ row column, column < v.width →
    s.cell row column = blockCell v.width top (v.shownText v.line.text) row column
  row_eq : s.row = top + v.cursorWidth / v.width
  column_eq : s.column = v.cursorWidth % v.width

/-- A screen that shows a block is described by any state that has its row of the cursor and room
for all that is shown. -/
theorem BlockShown.covers {v : LineView} {s : Screen} {top : Nat} (h : v.BlockShown s top)
    (hs : s.WellFormed) (hcolumns : s.columns = v.width) {d : DrawState}
    (hrow : d.cursorRow = v.cursorWidth / v.width + 1) (hle : d.cursorRow ≤ max d.rows 1)
    (hextent : (v.shownText v.line.text).length ≤ max d.rows 1 * v.width)
    (hmax : d.rows ≤ 65536) : d.Covers s top where
  cursorRow_pos := by
    rw [hrow]
    exact Nat.succ_pos _
  cursorRow_le := hle
  rows_le := hmax
  row_eq := by rw [h.row_eq, hrow, Nat.add_assoc]
  blank_above row column habove := by
    by_cases hcolumn : column < v.width
    · rw [h.cell_eq row column hcolumn, blockCell, if_pos habove]
    · exact hs.cell_of_columns_le row (by omega)
  blank_below row column hbelow := by
    by_cases hcolumn : column < v.width
    · rw [h.cell_eq row column hcolumn, blockCell_of_length_le]
      exact Nat.le_trans hextent (Nat.mul_le_mul_right v.width (by omega))
    · exact hs.cell_of_columns_le row (by omega)

namespace DrawsAlone

variable {v : LineView} (h : v.DrawsAlone 1)

include h

/-! ### Counting the characters of a block -/

theorem narrow_shownText : ∀ c ∈ v.shownText v.line.text, charWidth c = 1 := by
  intro c hc
  have hwidth := h.charWidth_shownText Nat.one_pos (List.infix_refl _) c hc
  omega

theorem contentWidth_eq_length {part : Text} (hpart : part <:+: v.line.text) :
    contentWidth v.masked part = part.length := by
  rw [h.contentWidth_eq hpart, Screen.length_cellsOf_narrow, h.content_eq hpart]
  · split
    · exact List.length_replicate
    · rfl
  · intro c hc
    have hwidth := h.charWidth_content hpart Nat.one_pos c hc
    omega

theorem cursorWidth_eq : v.cursorWidth = promptWidth v.prompt + v.line.before.length := by
  rw [cursorWidth, h.contentWidth_eq_length v.line.textBefore_infix, Line.textBefore,
    List.length_reverse]

theorem usedWidth_eq : v.usedWidth = v.cursorWidth + v.line.after.length := by
  rw [usedWidth, h.contentWidth_eq_length (List.infix_refl _), h.cursorWidth_eq, Line.text,
    List.length_append, List.length_reverse, Nat.add_assoc]

theorem length_shownText :
    (v.shownText v.line.text).length = v.usedWidth + v.shownHint.length := by
  have hcontent := h.contentWidth_eq (List.infix_refl _)
  have hprompt := h.promptWidth_eq
  have hnarrow := h.narrow_shownText
  rw [Screen.length_cellsOf_narrow] at hcontent hprompt
  · rw [shownText, List.length_append, List.length_append, usedWidth, hcontent, hprompt]
  · exact fun c hc => hnarrow c (List.mem_append_left _ (List.mem_append_left _ hc))
  · exact fun c hc => hnarrow c (List.mem_append_left _ (List.mem_append_right _ hc))

theorem cursorWidth_le : v.cursorWidth ≤ v.usedWidth := by
  rw [h.usedWidth_eq]
  exact Nat.le_add_right _ _

theorem hint_fits : v.shownHint.length = 0 ∨ v.usedWidth + v.shownHint.length ≤ v.width := by
  have hnarrow := h.narrow_shownText
  obtain ⟨-, -, hfits⟩ := h.hint_spec
  rw [Screen.length_cellsOf_narrow fun c hc => hnarrow c (List.mem_append_right _ hc)] at hfits
  exact hfits.imp_left fun hempty => by rw [hempty]; rfl

/-- A block has room for all that is shown. -/
theorem length_shownText_le :
    (v.shownText v.line.text).length ≤ max v.blockRows 1 * v.width := by
  rw [h.length_shownText]
  refine Nat.le_trans (le_rows_mul_width v.width_pos h.hint_fits) (Nat.mul_le_mul_right _ ?_)
  rw [blockRows]
  split <;> omega

/-- Where all columns can be counted in 16 bits, the cursor gets everywhere. -/
theorem inReach (hmax : v.usedWidth ≤ 65535) : v.InReach :=
  ⟨fun _ => blockRows_sub_le hmax, Or.inr (Nat.le_trans h.cursorWidth_le hmax)⟩

/-! ### The cursor of a block -/

section Cursor

variable (hprompt : promptWidth v.prompt < v.width)

/-- A line is sent on to a new row if it ends with a full row in which the cursor would stay. -/
theorem wraps_spec (hwraps : v.wraps = true) :
    v.shownHint.length = 0 ∧ v.cursorWidth = v.usedWidth ∧ 0 < v.usedWidth ∧
      v.usedWidth % v.width = 0 := by
  rw [wraps, Bool.and_eq_true, Bool.and_eq_true, Line.atEnd, beq_iff_eq] at hwraps
  obtain ⟨⟨hbefore, hafter⟩, hfull⟩ := hwraps
  rw [List.isEmpty_iff] at hafter
  have hlength : 0 < v.line.before.length := List.length_pos_iff.mpr (by simpa using hbefore)
  have hused := h.usedWidth_eq
  have hcursor := h.cursorWidth_eq
  rw [hafter, List.length_nil, Nat.add_zero] at hused
  rw [← hused] at hfull hcursor
  refine ⟨?_, hused.symm, by omega, hfull⟩
  rcases h.hint_fits with hnone | hfits
  · exact hnone
  · have hrow := Nat.le_of_dvd (by omega) (Nat.dvd_of_mod_eq_zero hfull)
    omega

include hprompt

private theorem stays_of_not_wraps (hwraps : ¬v.wraps = true) :
    v.cursorWidth < v.usedWidth ∨ v.cursorWidth < v.width ∨ v.cursorWidth % v.width ≠ 0 := by
  have hused := h.usedWidth_eq
  have hcursor := h.cursorWidth_eq
  rw [wraps, Bool.and_eq_true, Bool.and_eq_true, Line.atEnd, beq_iff_eq] at hwraps
  by_cases hafter : v.line.after = []
  · by_cases hbefore : v.line.before = []
    · rw [hbefore, List.length_nil, Nat.add_zero] at hcursor
      omega
    · exact Or.inr (Or.inr fun hfull => hwraps ⟨⟨by simpa using hbefore, by simpa using hafter⟩,
        hfull⟩)
  · have hlength := List.length_pos_iff.mpr hafter
    omega

/-- What is remembered of a drawing is what it shows: the row of the cursor is one of its rows, and
all that is shown fits into them. -/
theorem block_spec : v.cursorRow = v.cursorWidth / v.width + 1 ∧
    v.cursorRow ≤ max v.blockRows 1 ∧
    (v.shownText v.line.text).length ≤ max v.blockRows 1 * v.width ∧
    v.blockRows ≤ v.usedWidth + 1 := by
  have hwidth := v.width_pos
  refine ⟨v.cursorRow_eq, ?_, h.length_shownText_le, v.blockRows_le⟩
  rw [v.cursorRow_eq, blockRows]
  by_cases hwraps : v.wraps = true
  · obtain ⟨-, hcursor, hused, hfull⟩ := h.wraps_spec hwraps
    rw [if_pos hwraps, hcursor, (row_of_wrap hwidth hused hfull).2]
    exact Nat.le_max_left _ 1
  · rw [if_neg hwraps]
    exact row_of_no_wrap hwidth h.cursorWidth_le (h.stays_of_not_wraps hprompt hwraps)

theorem blockCursorRow_eq : v.blockCursorRow = v.cursorWidth / v.width := by
  obtain ⟨hrow, hle, -⟩ := h.block_spec hprompt
  rw [blockCursorRow]
  generalize v.cursorWidth / v.width = row at hrow ⊢
  omega

end Cursor

/-- From the row of the last character the cursor goes to its own row. -/
theorem shows_cursorRow (hreach : v.blockRows - v.cursorRow ≤ 65535) {s : Screen}
    (hs : s.WellFormed) {top : Nat}
    (hrow : s.row = top + ((v.shownText v.line.text).length - 1) / v.width) :
    ∃ s', s.Shows ((if v.wraps then ['\n', '\r'] else []) ++
        (if v.cursorRow < v.blockRows then
          (ControlSequence.cursorUp (v.blockRows - v.cursorRow)).text else [])) s' ∧
      s'.WellFormed ∧ s'.row = top + v.blockCursorRow ∧
      ∀ row column, s'.cell row column = s.cell row column := by
  have hwidth := v.width_pos
  have hpos := v.cursorRow_pos
  rw [h.length_shownText, last_row_eq hwidth h.hint_fits] at hrow
  rw [blockCursorRow]
  by_cases hwraps : v.wraps = true
  · -- A line that is sent on to a new row ends in it, and the cursor with it.
    obtain ⟨-, hcursor, hused, hfull⟩ := h.wraps_spec hwraps
    obtain ⟨hnext, hrows⟩ := row_of_wrap hwidth hused hfull
    have hblock : v.blockRows = rowsOf v.usedWidth v.width + 1 := if_pos hwraps
    have hcursorRow : v.cursorRow = v.blockRows := by
      rw [v.cursorRow_eq, hcursor, hblock, hrows]
    have hsome : 0 < rowsOf v.usedWidth v.width := by
      rw [hrows, ← hnext]
      exact Nat.succ_pos _
    rw [if_pos hwraps, if_neg (by omega), List.append_nil]
    refine ⟨_, s.shows_lineFeed.append (Screen.shows_return _), (hs.moveTo _ _).moveTo _ _,
      ?_, fun row column => by rw [Screen.cell_moveTo, Screen.cell_moveTo]⟩
    rw [Screen.moveTo_row, Screen.moveTo_row]
    omega
  · have hblock : v.blockRows = rowsOf v.usedWidth v.width := if_neg hwraps
    rw [if_neg hwraps, List.nil_append]
    by_cases hup : v.cursorRow < v.blockRows
    · rw [if_pos hup]
      refine ⟨_, s.shows_cursorUp (by omega) hreach, hs.moveTo _ _, ?_, s.cell_moveTo _ _⟩
      rw [Screen.moveTo_row]
      omega
    · rw [if_neg hup]
      exact ⟨s, .nil s, hs, by omega, fun row column => rfl⟩

/-- **Drawing a block.** Where nothing is drawn that the block does not cover, a drawing shows
prompt, line and hint as a block from the row of the cursor on, and touches nothing above it. -/
theorem shows_block (hrows : v.blockRows - v.cursorRow ≤ 65535) (hreach : v.InReach)
    {s : Screen} (hs : s.WellFormed) (hcolumns : s.columns = v.width)
    (hblank : s.BlankBehind (v.shownText v.line.text)) (d : DrawState) :
    ∃ s', s.Shows (v.drawRows d .write).text s' ∧ s'.WellFormed ∧ s.SameAbove s' s.row ∧
      s'.HoldsBlock s.row (v.shownText v.line.text) ∧ s'.row = s.row + v.blockCursorRow ∧
      s'.column = v.cursorWidth % v.width ∧ s'.wrapPending = false ∧ s'.afterJoiner = false := by
  have hnarrow := h.narrow_shownText
  have hshows₁ := h.shows_shownText Nat.one_pos (List.infix_refl _) (s := s.clearRow) rfl
  have hs₁ := hs.clearRow
  have hsame₁ := Screen.sameAbove_putAll hs₁ s.clearRow_column rfl hnarrow
  have hrow₁ := Screen.row_putAll_of_start hs₁ s.clearRow_column rfl hnarrow
  have hholds₁ := Screen.holdsBlock_putAll hs₁ s.clearRow_column rfl hnarrow
    fun row column hrow hcolumn hle => by
      rw [Screen.cell_clearRow hs]
      split
      · rfl
      · next hne => exact hblank row column (Nat.lt_of_le_of_ne hrow (Ne.symm hne)) hcolumn hle
  rw [Screen.clearRow_row] at hsame₁ hrow₁ hholds₁
  change _ = s.row + _ / s.columns at hrow₁
  rw [hcolumns] at hrow₁
  obtain ⟨s₂, hshows₂, hs₂, hrow₂, hcell₂⟩ :=
    h.shows_cursorRow hrows (hs₁.putAll (v.shownText v.line.text)) hrow₁
  have hcolumns₂ : s₂.columns = v.width := by
    rw [hshows₂.keeps.2, Screen.columns_putAll]
    exact hcolumns
  have hmod := Nat.mod_lt v.cursorWidth v.width_pos
  have hshows₃ :=
    shows_forwardBy s₂ (hreach.columns_or hcolumns₂ (Nat.mod_le v.cursorWidth v.width))
  have hall := ((s.shows_clearRow.append hshows₁).append hshows₂).append hshows₃
  refine ⟨s₂.moveTo s₂.row (v.cursorWidth % v.width), ?_, hs₂.moveTo _ _, ?_,
    fun row column hrow hcolumn => ?_, hrow₂, ?_, rfl, rfl⟩
  · rw [drawRows_text_write]
    simpa only [List.append_assoc, List.cons_append] using hall
  · refine ((Screen.sameAbove_clearRow hs).trans hsame₁).trans fun row column hrow => ?_
    rw [Screen.cell_moveTo, hcell₂]
  · rw [Screen.moveTo_columns, hcolumns₂] at hcolumn ⊢
    have hheld := hholds₁ row column hrow
      (by rw [Screen.columns_putAll]; exact hcolumns ▸ hcolumn)
    rw [Screen.columns_putAll, show s.clearRow.columns = v.width from hcolumns] at hheld
    rw [Screen.cell_moveTo, hcell₂, hheld]
  · rw [Screen.moveTo_column, hcolumns₂]
    omega

/-- What a drawing remembers describes the screen that shows it. -/
theorem covers_of_blockShown (hprompt : promptWidth v.prompt < v.width)
    (hmax : v.usedWidth ≤ 65535) (d : DrawState) {s : Screen} (hs : s.WellFormed)
    (hcolumns : s.columns = v.width) {top : Nat} (hshown : v.BlockShown s top) :
    (v.drawRows d .all).state.Covers s top := by
  obtain ⟨hcursorRow, hle, hextent, hrows⟩ := h.block_spec hprompt
  exact hshown.covers hs hcolumns hcursorRow hle hextent (Nat.le_trans hrows (by omega))

/-- **Drawing over several rows.** On a screen that shows a drawing that is remembered, a drawing
shows prompt, line and hint as a block in the place of the old one, and nothing else, and remembers
what it has drawn. -/
theorem shows_drawRows (hprompt : promptWidth v.prompt < v.width) (hmax : v.usedWidth ≤ 65535)
    {s : Screen} (hs : s.WellFormed) (hcolumns : s.columns = v.width) {d : DrawState} {top : Nat}
    (hcovers : d.Covers s top) :
    ∃ s', s.Shows (v.drawRows d .all).text s' ∧ s'.WellFormed ∧ s'.columns = v.width ∧
      (v.drawRows d .all).state.Covers s' top ∧ v.BlockShown s' top := by
  have hrows := hcovers.rows_le
  have hpos := hcovers.cursorRow_pos
  obtain ⟨s₁, hshows₁, hs₁, hrow₁, hblank₁, hsame₁⟩ :=
    DrawState.shows_eraseRows hs (by omega) hcovers.blankFrom
  rw [hcovers.firstRow_eq] at hrow₁
  obtain ⟨s₂, hshows₂, hs₂, hsame₂, hholds₂, hrow₂, hcolumn₂, -, -⟩ :=
    h.shows_block (blockRows_sub_le hmax) (h.inReach hmax) hs₁
      (hshows₁.keeps.2.trans hcolumns) hblank₁.blankBehind d
  have hall := hshows₁.append hshows₂
  have hcolumns₂ := hall.keeps.2.trans hcolumns
  rw [hrow₁] at hsame₁ hsame₂ hholds₂ hrow₂
  have hshown : v.BlockShown s₂ top := by
    refine ⟨fun row column hcolumn => ?_, ?_, hcolumn₂⟩
    · by_cases habove : row < top
      · rw [hsame₂ row column habove, hsame₁ row column habove,
          hcovers.blank_above row column habove, blockCell, if_pos habove]
      · rw [hholds₂ row column (by omega) (by omega), hcolumns₂]
    · rw [hrow₂, h.blockCursorRow_eq hprompt]
  rw [← v.drawRows_text_all] at hall
  exact ⟨s₂, hall, hs₂, hcolumns₂, h.covers_of_blockShown hprompt hmax d hs₂ hcolumns₂ hshown,
    hshown⟩

end DrawsAlone

end LineView

end Typeline
