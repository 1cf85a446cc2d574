import Typeline.Proofs.Edit.Block
import Typeline.Proofs.Edit.Row

/-!
# Where a drawing is on the screen

Above a line that is edited a terminal may show anything. What a drawing does to it can be said for
both ways to draw at once: from some row on it shows prompt, line and hint as a block and nothing
else, with the cursor in its place in the block, and it touches nothing above that row.

What is remembered of a drawing decides the row in which the next one lands. After a drawing over
several rows this is the row in which that one starts. On a single row the next drawing lands in the
row of the cursor, which is the same if the prompt leaves a column of the row.

## Main definitions

* `LineView.ShownFrom`, `LineView.PlacedAt` : from a row on the screen shows a drawing.
* `LineView.Ready` : what a drawing relies on.
* `LineView.landing` : the row in which the next drawing lands.

## Main results

* `LineView.DrawsAlone.shows_write` : drawing where nothing is drawn.
* `LineView.DrawsAlone.shows_all` : drawing in the place of the last drawing.
* `LineView.Ready.shows_clean` : erasing the last drawing.
* `LineView.DrawsAlone.shows_typed` : writing the character that has been typed.
* `LineView.DrawsAlone.shows_prompt` : writing the prompt.
-/

namespace Typeline

open Screen (cellsOf)

namespace LineView

/-! ### Rows and columns of a drawing -/

/-- All that a drawing shows: on a single row the part of the line that is in the window. -/
def drawnText (v : LineView) : Text :=
  if v.multiline then v.shownText v.line.text else v.rowText

/-- The row of the cursor, counted from the row in which the drawing starts. -/
def drawnRow (v : LineView) : Nat :=
  if v.multiline then v.blockCursorRow else (v.rowText.length - 1) / v.width

/-- The column of the cursor. On a single row, columns behind the last one are not left free by the
prompt. -/
def drawnColumn (v : LineView) : Nat :=
  if v.multiline then v.cursorWidth % v.width
  else min (promptWidth v.prompt + v.window.cursorColumn) (v.width - 1)

/-- From the row `top` on the screen shows a drawing, and nothing else, with the cursor in its row.
Above it anything may be shown. -/
structure ShownFrom (v : LineView) (s : Screen) (top : Nat) : Prop where
  wellFormed : s.WellFormed
  columns_eq : s.columns = v.width
  holdsBlock : s.HoldsBlock top v.drawnText
  row_eq : s.row = top + v.drawnRow

/-- From the row `top` on the screen shows a drawing, and nothing else, with the cursor in its
place. -/
structure PlacedAt (v : LineView) (s : Screen) (top : Nat) : Prop extends v.ShownFrom s top where
  column_eq : s.column = v.drawnColumn
  wrapPending_eq : s.wrapPending = false
  afterJoiner_eq : s.afterJoiner = false

section Modes

variable {v : LineView}

theorem draw_of_multiline (h : v.multiline = true) : v.draw = v.drawRows := by
  funext d mode
  exact if_pos h

private theorem draw_of_single (h : v.multiline = false) : v.draw = v.drawRow := by
  funext d mode
  exact if_neg (by rw [h]; exact Bool.false_ne_true)

theorem drawnText_of_multiline (h : v.multiline = true) : v.drawnText = v.shownText v.line.text :=
  if_pos h

theorem drawnText_of_single (h : v.multiline = false) : v.drawnText = v.rowText :=
  if_neg (by rw [h]; exact Bool.false_ne_true)

theorem drawnRow_of_multiline (h : v.multiline = true) : v.drawnRow = v.blockCursorRow := if_pos h

theorem drawnRow_of_single (h : v.multiline = false) :
    v.drawnRow = (v.rowText.length - 1) / v.width :=
  if_neg (by rw [h]; exact Bool.false_ne_true)

theorem drawnColumn_of_multiline (h : v.multiline = true) :
    v.drawnColumn = v.cursorWidth % v.width :=
  if_pos h

theorem drawnColumn_of_single (h : v.multiline = false) :
    v.drawnColumn = min (promptWidth v.prompt + v.window.cursorColumn) (v.width - 1) :=
  if_neg (by rw [h]; exact Bool.false_ne_true)

end Modes

namespace DrawsAlone

variable {v : LineView} (h : v.DrawsAlone 1)

include h

theorem narrow_rowText : ∀ c ∈ v.rowText, charWidth c = 1 := by
  intro c hc
  have hwidth := h.charWidth_shownText Nat.one_pos v.slice_infix c hc
  omega

/-- The columns of the prompt are its characters. -/
theorem length_prompt : v.prompt.length = promptWidth v.prompt := by
  rw [h.promptWidth_eq, Screen.length_cellsOf_narrow]
  exact fun c hc => h.narrow_shownText c (List.mem_append_left _ (List.mem_append_left _ hc))

private theorem narrow_drawnText : ∀ c ∈ v.drawnText, charWidth c = 1 := by
  cases hmulti : v.multiline with
  | true => exact drawnText_of_multiline hmulti ▸ h.narrow_shownText
  | false => exact drawnText_of_single hmulti ▸ h.narrow_rowText

theorem promptWidth_le_drawnText : promptWidth v.prompt ≤ v.drawnText.length := by
  have hlength (part : Text) : v.prompt.length ≤ (v.shownText part).length := by
    rw [shownText, List.append_assoc]
    exact (List.prefix_append _ _).length_le
  rw [← h.length_prompt, drawnText]
  split
  · exact hlength _
  · exact hlength _

/-- A prompt that leaves no column of the row is all that is shown on it. -/
theorem rowText_of_wide (hwide : v.width ≤ promptWidth v.prompt) : v.rowText = v.prompt := by
  obtain ⟨-, hhint, hfits⟩ := h.hint_spec
  obtain ⟨-, shownBefore, shownAfter, -, -, -, hslice, -, hwidth, hbefore, hafter⟩ := h.window_spec
  have hnone : v.shownHint = [] := by
    rcases v.hint_cases with ⟨hempty, -⟩ | ⟨-, -, -, -, hroom, -⟩
    · exact hempty
    · rw [usedWidth] at hroom
      omega
  have hshownBefore : shownBefore = [] := hbefore.resolve_right (by omega)
  subst hshownBefore
  have hshownAfter : shownAfter = [] := by
    rcases hafter with hempty | hroom
    · exact hempty
    · have hpart : shownAfter <:+: v.line.text := by
        rw [← List.nil_append shownAfter, ← hslice]
        exact v.slice_infix
      have hlength := h.contentWidth_eq_length hpart
      rw [List.nil_append, hlength] at hwidth
      exact List.length_eq_zero_iff.mp (by omega)
  rw [rowText, shownText, hslice, hshownAfter, hnone, List.append_nil, List.append_nil,
    h.content_eq List.nil_infix]
  split <;> exact List.append_nil _

/-- The cursor is not drawn further to the right than the columns up to it go. -/
theorem cursorColumn_le : promptWidth v.prompt + v.window.cursorColumn ≤ v.cursorWidth := by
  obtain ⟨left, shownBefore, -, -, hbefore, -, -, hcursor, -⟩ := h.window_spec
  have hpart : left ++ shownBefore <:+: v.line.text := hbefore ▸ v.line.textBefore_infix
  rw [hcursor, cursorWidth, hbefore, h.contentWidth_append hpart]
  omega

/-- If the prompt leaves a column of the row, a drawing on a single row takes no other. -/
theorem drawnRow_of_room (hmulti : v.multiline = false)
    (hroom : promptWidth v.prompt < v.width) : v.drawnRow = 0 := by
  have hfits := (h.row_spec hroom).1
  rw [Screen.length_cellsOf_narrow h.narrow_rowText] at hfits
  rw [drawnRow_of_single hmulti]
  exact Nat.div_eq_of_lt (by have := v.width_pos; omega)

/-- On a single row only the prompt takes more rows than one. -/
theorem drawnRow_of_prompt (hmulti : v.multiline = false) :
    v.drawnRow = (promptWidth v.prompt - 1) / v.width := by
  by_cases hroom : promptWidth v.prompt < v.width
  · rw [h.drawnRow_of_room hmulti hroom, Nat.div_eq_of_lt (by omega)]
  · rw [drawnRow_of_single hmulti, h.rowText_of_wide (by omega), h.length_prompt]

/-! ### Drawing where nothing is drawn -/

/-- Drawing on a single row shows the row as a block, which takes more rows than one if the prompt
is wider than the row. -/
theorem shows_row (hreach : v.InReach) {s : Screen} (hs : s.WellFormed)
    (hcolumns : s.columns = v.width) (hblank : s.BlankBehind v.rowText) (d : DrawState) :
    ∃ s', s.Shows (v.drawRow d .write).text s' ∧ s'.WellFormed ∧ s.SameAbove s' s.row ∧
      s'.HoldsBlock s.row v.rowText ∧ s'.row = s.row + (v.rowText.length - 1) / v.width ∧
      s'.column = min (promptWidth v.prompt + v.window.cursorColumn) (v.width - 1) ∧
      s'.wrapPending = false ∧ s'.afterJoiner = false := by
  have hnarrow := h.narrow_rowText
  have hs₁ := hs.moveTo s.row 0
  have hstart : (s.moveTo s.row 0).column = 0 := Nat.zero_min _
  have hshows₁ := (h.mono (Nat.le_succ 1)).shows_rowText (s := s.moveTo s.row 0) hcolumns rfl
  have hsame₁ := Screen.sameAbove_overwrite hs₁ hstart rfl hnarrow
  have hrow₁ := Screen.row_overwrite_of_start hs₁ hstart rfl hnarrow
  have hholds₁ := Screen.holdsBlock_overwrite hs₁ hstart rfl hnarrow (hblank.moveTo 0)
  rw [Screen.moveTo_row] at hsame₁ hrow₁ hholds₁
  rw [Screen.moveTo_columns, hcolumns] at hrow₁
  have hcolumns₁ := hshows₁.keeps.2.trans hcolumns
  have hall := (s.shows_return.append hshows₁).append
    (shows_forwardBy _ (hreach.columns_or hcolumns₁ h.cursorColumn_le))
  rw [← v.drawRow_text d] at hall
  refine ⟨_, hall, (hs₁.overwrite _).moveTo _ _, ?_, hholds₁.moveTo _ _, hrow₁, ?_, rfl, rfl⟩
  · exact ((s.sameAbove_moveTo _ _ _).trans hsame₁).trans (Screen.sameAbove_moveTo _ _ _ _)
  · rw [Screen.moveTo_column, hcolumns₁]

/-- **Drawing where nothing is drawn.** Whatever the row of the cursor showed, if nothing is drawn
below it where the drawing does not get to, the drawing is shown from that row on, and nothing above
is touched. -/
theorem shows_write (hreach : v.InReach) {s : Screen} (hs : s.WellFormed)
    (hcolumns : s.columns = v.width) (hblank : s.BlankBehind v.drawnText) (d : DrawState) :
    ∃ s', s.Shows (v.draw d .write).text s' ∧ v.PlacedAt s' s.row ∧ s.SameAbove s' s.row := by
  cases hmulti : v.multiline with
  | true =>
    rw [drawnText_of_multiline hmulti] at hblank
    obtain ⟨s', hshows, hs', hsame, hholds, hrow, hcolumn, hpending, hjoiner⟩ :=
      h.shows_block (hreach.rows hmulti) hreach hs hcolumns hblank d
    rw [← draw_of_multiline hmulti] at hshows
    rw [← drawnText_of_multiline hmulti] at hholds
    rw [← drawnRow_of_multiline hmulti] at hrow
    rw [← drawnColumn_of_multiline hmulti] at hcolumn
    exact ⟨s', hshows, ⟨⟨hs', hshows.keeps.2.trans hcolumns, hholds, hrow⟩, hcolumn, hpending,
      hjoiner⟩, hsame⟩
  | false =>
    rw [drawnText_of_single hmulti] at hblank
    obtain ⟨s', hshows, hs', hsame, hholds, hrow, hcolumn, hpending, hjoiner⟩ :=
      h.shows_row hreach hs hcolumns hblank d
    rw [← draw_of_single hmulti] at hshows
    rw [← drawnText_of_single hmulti] at hholds
    rw [← drawnRow_of_single hmulti] at hrow
    rw [← drawnColumn_of_single hmulti] at hcolumn
    exact ⟨s', hshows, ⟨⟨hs', hshows.keeps.2.trans hcolumns, hholds, hrow⟩, hcolumn, hpending,
      hjoiner⟩, hsame⟩

end DrawsAlone

/-! ### Erasing the last drawing -/

/-- The row in which the next drawing lands. -/
def landing (v : LineView) (d : DrawState) (s : Screen) : Nat :=
  if v.multiline then d.firstRow s else s.row

/-- The last row that the next drawing erases. -/
def lastErased (v : LineView) (d : DrawState) (s : Screen) : Nat :=
  if v.multiline then d.lastRow s else s.row

/-- What the next drawing writes to erase the last one, but for the row in which it lands. -/
def erasing (v : LineView) (d : DrawState) : Text := if v.multiline then eraseRows d else []

/-- What a drawing relies on: nothing is drawn below the rows that it erases. -/
structure Ready (v : LineView) (d : DrawState) (s : Screen) : Prop where
  wellFormed : s.WellFormed
  columns_eq : s.columns = v.width
  reach : v.multiline = true → d.rows - d.cursorRow ≤ 65535
  blankFrom : s.BlankFrom (v.lastErased d s + 1)

private theorem draw_text_all (v : LineView) (d : DrawState) :
    (v.draw d .all).text = v.erasing d ++ (v.draw d .write).text := by
  rw [draw, draw, erasing]
  split
  · exact v.drawRows_text_all d
  · rfl

private theorem draw_text_clean (v : LineView) (d : DrawState) :
    (v.draw d .clean).text = v.erasing d ++ '\r' :: eraseToEnd := by
  rw [draw, erasing]
  split <;> rfl

namespace Ready

variable {v : LineView} {d : DrawState} {s : Screen} (h : v.Ready d s)

include h

theorem shows_erasing : ∃ s', s.Shows (v.erasing d) s' ∧ s'.WellFormed ∧
    s'.row = v.landing d s ∧ s'.BlankFrom (s'.row + 1) ∧ s.SameAbove s' (v.landing d s) := by
  have hblank := h.blankFrom
  rw [lastErased] at hblank
  rw [erasing, landing]
  by_cases hmulti : v.multiline = true
  · rw [if_pos hmulti] at hblank
    rw [if_pos hmulti, if_pos hmulti]
    obtain ⟨s', hshows, hs', hrow, hblank', hsame⟩ :=
      DrawState.shows_eraseRows h.wellFormed (h.reach hmulti) hblank
    exact ⟨s', hshows, hs', hrow, hblank', hrow ▸ hsame⟩
  · rw [if_neg hmulti] at hblank
    rw [if_neg hmulti, if_neg hmulti]
    exact ⟨s, .nil s, h.wellFormed, rfl, hblank, .refl s _⟩

/-- **Erasing the last drawing.** From the row in which the next drawing would land on, nothing is
left, and nothing above is touched. -/
theorem shows_clean : ∃ s', s.Shows (v.draw d .clean).text s' ∧ s'.Vacant ∧
    s'.row = v.landing d s ∧ s.SameAbove s' (v.landing d s) := by
  obtain ⟨s', hshows, hs', hrow, hblank, hsame⟩ := h.shows_erasing
  rw [draw_text_clean]
  refine ⟨s'.clearRow, hshows.append s'.shows_clearRow, Screen.vacant_clearRow hs' hblank, hrow, ?_⟩
  exact hsame.trans (hrow ▸ Screen.sameAbove_clearRow hs')

end Ready

/-- **Drawing in the place of the last drawing.** The drawing is shown from the row in which it
lands on, and nothing above is touched. -/
theorem DrawsAlone.shows_all {v : LineView} (h : v.DrawsAlone 1) (hreach : v.InReach)
    {d : DrawState} {s : Screen} (hready : v.Ready d s) :
    ∃ s', s.Shows (v.draw d .all).text s' ∧ v.PlacedAt s' (v.landing d s) ∧
      s.SameAbove s' (v.landing d s) := by
  obtain ⟨s₁, hshows₁, hs₁, hrow₁, hblank₁, hsame₁⟩ := hready.shows_erasing
  obtain ⟨s₂, hshows₂, hplaced, hsame₂⟩ := h.shows_write hreach hs₁
    (hshows₁.keeps.2.trans hready.columns_eq) hblank₁.blankBehind d
  rw [hrow₁] at hplaced hsame₂
  rw [draw_text_all]
  exact ⟨s₂, hshows₁.append hshows₂, hplaced, hsame₁.trans hsame₂⟩

/-! ### What is remembered of a drawing -/

/-- A state remembers the rows of a drawing. On a single row nothing is remembered. -/
def Remembers (v : LineView) (d : DrawState) : Prop :=
  v.multiline = true → d.rows = v.blockRows ∧ d.cursorRow = v.cursorRow

theorem remembers_draw (v : LineView) (d : DrawState) {mode : RefreshMode}
    (hmode : mode.writes = true) : v.Remembers (v.draw d mode).state := by
  intro hmulti
  rw [draw_of_multiline hmulti, drawRows, if_pos hmode]
  exact ⟨rfl, rfl⟩

/-- The number of rows by which a drawing lands too high that finds the last drawing erased. The
rows of that one are still remembered, but the cursor has been moved to the first of them. -/
def climb (v : LineView) : Nat :=
  if v.multiline then min v.cursorRow (rowsOf v.usedWidth v.width) - 1 else 0

/-- A state remembers the rows of a line that has been erased. -/
def RemembersErased (v : LineView) (d : DrawState) : Prop :=
  v.multiline = true → d.rows = rowsOf v.usedWidth v.width ∧ d.cursorRow = v.cursorRow

theorem remembersErased_clean (v : LineView) {d : DrawState}
    (h : v.multiline = true → d.cursorRow = v.cursorRow) :
    v.RemembersErased (v.draw d .clean).state := by
  intro hmulti
  rw [draw_of_multiline hmulti]
  exact ⟨rfl, h hmulti⟩

/-- Where nothing is drawn from the cursor on, a drawing can land, but it climbs. -/
theorem RemembersErased.ready {v : LineView} {d : DrawState} {s : Screen}
    (h : v.RemembersErased d) (hreach : v.InReach) (hvacant : s.Vacant)
    (hcolumns : s.columns = v.width) : v.Ready d s ∧ v.landing d s = s.row - v.climb := by
  have hpos := v.cursorRow_pos
  by_cases hmulti : v.multiline = true
  · obtain ⟨hrows, hcursorRow⟩ := h hmulti
    have hle : rowsOf v.usedWidth v.width ≤ v.blockRows := by
      rw [blockRows]
      split <;> omega
    refine ⟨⟨hvacant.wellFormed, hcolumns, fun _ => ?_, ?_⟩, ?_⟩
    · have hblock := hreach.rows hmulti
      omega
    · rw [lastErased, if_pos hmulti, DrawState.lastRow]
      exact hvacant.blankFrom.mono (by omega)
    · rw [landing, climb, if_pos hmulti, if_pos hmulti, DrawState.firstRow, DrawState.lastRow,
        hrows, hcursorRow]
      omega
  · refine ⟨⟨hvacant.wellFormed, hcolumns, fun hmulti' => absurd hmulti' hmulti, ?_⟩, ?_⟩
    · rw [lastErased, if_neg hmulti]
      exact hvacant.blankFrom.mono (Nat.le_succ _)
    · rw [landing, climb, if_neg hmulti, if_neg hmulti, Nat.sub_zero]

namespace ShownFrom

variable {v : LineView} {s : Screen} {top : Nat} (hshown : v.ShownFrom s top)

include hshown

/-- Behind its last row nothing is drawn. -/
theorem blankFrom {low : Nat} (htop : top ≤ low)
    (hlow : v.drawnText.length ≤ (low - top) * v.width) : s.BlankFrom low :=
  hshown.holdsBlock.blankFrom hshown.wellFormed htop (by rwa [hshown.columns_eq])

/-- After a drawing the next one lands in its place, or on a single row in the row of the cursor. -/
theorem ready (h : v.DrawsAlone 1) (hreach : v.InReach) {d : DrawState} (hstate : v.Remembers d) :
    v.Ready d s ∧ v.landing d s = if v.multiline then top else s.row := by
  have hrow := hshown.row_eq
  by_cases hmulti : v.multiline = true
  · obtain ⟨hrows, hcursorRow⟩ := hstate hmulti
    have hpos := v.cursorRow_pos
    rw [drawnRow_of_multiline hmulti, blockCursorRow] at hrow
    have hlast : d.lastRow s = top + (max v.blockRows 1 - 1) := by
      rw [DrawState.lastRow]
      omega
    refine ⟨⟨hshown.wellFormed, hshown.columns_eq, fun _ => ?_, ?_⟩, ?_⟩
    · rw [hrows, hcursorRow]
      exact hreach.rows hmulti
    · rw [lastErased, if_pos hmulti, hlast]
      refine hshown.blankFrom (by omega) ?_
      rw [drawnText_of_multiline hmulti]
      exact Nat.le_trans h.length_shownText_le (Nat.mul_le_mul_right _ (by omega))
    · rw [landing, if_pos hmulti, if_pos hmulti, DrawState.firstRow, hlast]
      omega
  · have hsingle : v.multiline = false := by simpa using hmulti
    refine ⟨⟨hshown.wellFormed, hshown.columns_eq, fun hmulti' => absurd hmulti' hmulti, ?_⟩, ?_⟩
    · rw [lastErased, if_neg hmulti]
      refine hshown.blankFrom (by omega) ?_
      rw [drawnRow_of_single hsingle] at hrow
      have hlast := Nat.lt_mul_div_succ (v.rowText.length - 1) v.width_pos
      rw [drawnText_of_single hsingle, hrow, Nat.add_assoc, Nat.add_sub_cancel_left, Nat.mul_comm]
      omega
    · rw [landing, if_neg hmulti, if_neg hmulti]

/-- If the prompt leaves a column of the row, the next drawing lands in the place of the last. -/
theorem landing_eq (h : v.DrawsAlone 1) (hreach : v.InReach)
    (hroom : promptWidth v.prompt < v.width) {d : DrawState} (hstate : v.Remembers d) :
    v.landing d s = top := by
  rw [(hshown.ready h hreach hstate).2]
  split
  · rfl
  · next hmulti =>
    rw [hshown.row_eq, h.drawnRow_of_room (by simpa using hmulti) hroom, Nat.add_zero]

/-- A drawing that is shown once more in the same place is seen as before. -/
theorem cell_eq {s' : Screen} (hshown' : v.ShownFrom s' top) (hsame : s.SameAbove s' top)
    (row column : Nat) : s'.cell row column = s.cell row column := by
  by_cases habove : row < top
  · exact hsame row column habove
  · by_cases hcolumn : column < v.width
    · rw [hshown.holdsBlock row column (by omega) (by rwa [hshown.columns_eq]),
        hshown'.holdsBlock row column (by omega) (by rwa [hshown'.columns_eq]),
        hshown.columns_eq, hshown'.columns_eq]
    · rw [hshown.wellFormed.cell_of_columns_le _ (by rw [hshown.columns_eq]; omega),
        hshown'.wellFormed.cell_of_columns_le _ (by rw [hshown'.columns_eq]; omega)]

/-- A drawing that is shown once more further down has a last row that was blank. -/
theorem exists_cell_ne {s' : Screen} {low : Nat} (hshown' : v.ShownFrom s' low) (hlt : top < low)
    (hsome : v.drawnText ≠ []) : ∃ row column, s'.cell row column ≠ s.cell row column := by
  have hlength := List.length_pos_iff.mpr hsome
  have hend := Nat.lt_mul_div_succ (v.drawnText.length - 1) v.width_pos
  have hlast := Nat.div_mul_le_self (v.drawnText.length - 1) v.width
  generalize (v.drawnText.length - 1) / v.width = last at hend hlast
  have hblank : s.BlankFrom (low + last) := by
    have hmore := Nat.mul_le_mul_right v.width (show last + 1 ≤ low + last - top by omega)
    rw [Nat.mul_comm] at hend
    exact hshown.blankFrom (by omega) (by omega)
  refine ⟨low + last, 0, ?_⟩
  rw [hblank _ 0 (Nat.le_refl _), hshown'.holdsBlock (low + last) 0 (Nat.le_add_right _ _)
    (hshown'.columns_eq ▸ v.width_pos), hshown'.columns_eq]
  exact blockCell_ne_blank (Nat.le_add_right low last) (by rw [Nat.add_sub_cancel_left]; omega)

/-- Where the prompt takes more rows than one, something is shown at the start of each but the
last. -/
theorem ne_blank_of_prompt (h : v.DrawsAlone 1) {row : Nat} (htop : top ≤ row)
    (hrow : row < top + (promptWidth v.prompt - 1) / v.width) : s.cell row 0 ≠ .blank := by
  have hprompt := h.promptWidth_le_drawnText
  have hlast := Nat.div_mul_le_self (promptWidth v.prompt - 1) v.width
  have hmore := Nat.mul_lt_mul_of_pos_right
    (show row - top < (promptWidth v.prompt - 1) / v.width by omega) v.width_pos
  rw [hshown.holdsBlock row 0 htop (hshown.columns_eq ▸ v.width_pos), hshown.columns_eq]
  exact blockCell_ne_blank htop (by omega)

end ShownFrom

/-! ### Typing at the end of the line -/

/-- **Writing the typed character.** At the end of a line that is shown without a hint on a single
row, with room for more, the character is all that the new line adds. -/
theorem PlacedAt.shows_typed {v : LineView} {line : Line} (h : v.DrawsAlone 1)
    (h' : { v with line }.DrawsAlone 1) {c : Char} (hline : line.text = v.line.text ++ [c])
    (hmulti : v.multiline = false) (hhinter : v.hinter = none) (hend : v.line.after = [])
    (hend' : line.after = []) (hfits : { v with line }.usedWidth < v.width) {s : Screen} {top : Nat}
    (hplaced : v.PlacedAt s top) :
    ∃ s', s.Shows [if v.masked then maskGlyph else c] s' ∧ { v with line }.PlacedAt s' top ∧
      s.SameAbove s' top := by
  have hwide := h.mono (Nat.le_succ 1)
  have hwide' := h'.mono (Nat.le_succ 1)
  have hle := usedWidth_le_typed hwide hwide' hline
  obtain ⟨htext, hlength, hcursor⟩ := rowText_of_fits hwide hhinter hend (by omega)
  obtain ⟨htext', hlength', hcursor'⟩ := rowText_of_fits hwide' hhinter hend' hfits
  have hnew : { v with line }.rowText = v.rowText ++ [if v.masked then maskGlyph else c] := by
    rw [htext', htext, List.append_assoc, ← content_text_typed hwide' hline]
  have hnarrow : ∀ d ∈ [if v.masked then maskGlyph else c], charWidth d = 1 := by
    intro d hd
    exact h'.narrow_rowText d (by rw [hnew]; exact List.mem_append_right _ hd)
  rw [Screen.length_cellsOf_narrow h.narrow_rowText] at hlength
  rw [Screen.length_cellsOf_narrow h'.narrow_rowText, hnew, List.length_append,
    List.length_singleton] at hlength'
  have hcolumns := hplaced.columns_eq
  have hwidth : { v with line }.width = v.width := rfl
  have hrow : s.row = top := by
    rw [hplaced.row_eq, drawnRow_of_single hmulti, Nat.div_eq_of_lt (by omega), Nat.add_zero]
  have hcolumn : s.column = v.rowText.length := by
    rw [hplaced.column_eq, drawnColumn_of_single hmulti]
    omega
  have hcells := Screen.length_cellsOf_narrow hnarrow
  rw [List.length_singleton] at hcells
  have hroom : s.column + (cellsOf [if v.masked then maskGlyph else c]).length < s.columns := by
    omega
  have hone := fun d hd => Or.inl (b := charWidth d = 2) (hnarrow d hd)
  have hplace : s.place = top * s.columns + v.rowText.length := by
    rw [Screen.place_of_not_pending hplaced.wrapPending_eq, hrow, hcolumn]
  obtain ⟨hpending', hcolumn'⟩ :=
    Screen.cursor_putAll_of_room hone hplaced.wrapPending_eq (Nat.le_of_lt hroom) hroom
  obtain ⟨hshows, hjoiner'⟩ := Screen.shows_putAll (t := [if v.masked then maskGlyph else c])
    hplaced.afterJoiner_eq fun d hd => hnarrow d hd ▸ Nat.one_pos
  have hholds := hplaced.holdsBlock
  rw [drawnText_of_single hmulti] at hholds
  have hholds' := hholds.putAll hplaced.wellFormed hnarrow hplace
  rw [← hnew, ← drawnText_of_single (v := { v with line }) hmulti] at hholds'
  refine ⟨_, hshows, ⟨⟨hplaced.wellFormed.putAll _, (Screen.columns_putAll _ _).trans hcolumns,
    hholds', ?_⟩, ?_, hpending', hjoiner'⟩, ?_⟩
  · rw [Screen.row_putAll_of_fits hone hplaced.wrapPending_eq (Nat.le_of_lt hroom), hrow,
      drawnRow_of_single (v := { v with line }) hmulti, hnew, List.length_append,
      List.length_singleton, Nat.div_eq_of_lt (by omega), Nat.add_zero]
  · rw [hcolumn', drawnColumn_of_single (v := { v with line }) hmulti]
    omega
  · exact Screen.sameAbove_putAll_of_place hplaced.wellFormed hnarrow (by omega)

/-! ### The prompt -/

section Prompt

variable {v : LineView} (h : v.DrawsAlone 1) (hline : v.line.before = [] ∧ v.line.after = [])
  (hhinter : v.hinter = none)

include hline

private theorem text_of_empty : v.line.text = [] := by
  rw [Line.text, hline.1, hline.2]
  rfl

include hhinter in
theorem drawnText_of_empty : v.drawnText = v.prompt := by
  have hempty := text_of_empty hline
  have hshown : v.shownText [] = v.prompt :=
    shownText_of_empty hempty fun hinter hsome => by simp [hhinter] at hsome
  have hslice : v.window.slice [] = [] := by
    rw [Window.slice, List.take_nil, List.drop_nil]
  rw [drawnText, rowText, hempty, hslice, hshown, ite_self]

include h

theorem widths_of_empty : v.cursorWidth = promptWidth v.prompt ∧
    v.usedWidth = promptWidth v.prompt := by
  have hcursor := h.cursorWidth_eq
  have hused := h.usedWidth_eq
  rw [hline.1, List.length_nil, Nat.add_zero] at hcursor
  rw [hline.2, List.length_nil, Nat.add_zero, hcursor] at hused
  exact ⟨hcursor, hused⟩

theorem drawnRow_of_empty : v.drawnRow = (promptWidth v.prompt - 1) / v.width := by
  obtain ⟨hcursor, hused⟩ := widths_of_empty h hline
  cases hmulti : v.multiline with
  | true =>
    have hwraps : ¬v.wraps = true := by simp [wraps, hline.1]
    have hlast : (promptWidth v.prompt + 0 - 1) / v.width = _ :=
      last_row_eq v.width_pos (Or.inl rfl)
    rw [Nat.add_zero] at hlast
    have hle := Nat.div_le_div_right (c := v.width) (Nat.sub_le (promptWidth v.prompt) 1)
    rw [drawnRow_of_multiline hmulti, blockCursorRow, v.cursorRow_eq, blockRows, if_neg hwraps,
      hcursor, hused]
    generalize promptWidth v.prompt / v.width = row at hle
    omega
  | false => exact h.drawnRow_of_prompt hmulti

include hhinter

/-- **Writing the prompt** shows the empty line, from the row of the cursor on. A prompt that leaves
a column of the row leaves the cursor in its place. -/
theorem shows_prompt {s : Screen} (hvacant : s.Vacant) (hcolumns : s.columns = v.width) :
    ∃ s', s.Shows v.prompt s' ∧ v.ShownFrom s' s.row ∧ s.SameAbove s' s.row ∧
      (promptWidth v.prompt < v.width → v.PlacedAt s' s.row) := by
  have htext := drawnText_of_empty hline hhinter
  have hnarrow := h.narrow_drawnText
  rw [htext] at hnarrow
  have hcells := Screen.length_cellsOf_narrow hnarrow
  rw [← h.promptWidth_eq] at hcells
  have hholds := Screen.holdsBlock_putAll hvacant.wellFormed hvacant.column_eq
    hvacant.wrapPending_eq hnarrow fun row column hrow _ _ => hvacant.blankFrom row column hrow
  have hrow := Screen.row_putAll_of_start hvacant.wellFormed hvacant.column_eq
    hvacant.wrapPending_eq hnarrow
  obtain ⟨hshows, hjoiner⟩ :=
    Screen.shows_putAll hvacant.afterJoiner_eq h.prompt.charWidth_pos
  have hshown : v.ShownFrom (s.putAll v.prompt) s.row := by
    refine ⟨hvacant.wellFormed.putAll _, hshows.keeps.2.trans hcolumns, htext ▸ hholds, ?_⟩
    rw [hrow, drawnRow_of_empty h hline, hcolumns, hcells]
  refine ⟨_, hshows, hshown, Screen.sameAbove_putAll hvacant.wellFormed hvacant.column_eq
    hvacant.wrapPending_eq hnarrow, fun hroom => ?_⟩
  have hfits : s.column + (cellsOf v.prompt).length < s.columns := by
    rw [hvacant.column_eq, ← h.promptWidth_eq]
    omega
  obtain ⟨hpending, hcolumn⟩ := Screen.cursor_putAll_of_room
    (fun c hc => Or.inl (hnarrow c hc)) hvacant.wrapPending_eq (Nat.le_of_lt hfits) hfits
  refine ⟨hshown, ?_, hpending, hjoiner⟩
  obtain ⟨hcursor, -⟩ := widths_of_empty h hline
  have hle := h.cursorColumn_le
  rw [hcolumn, hvacant.column_eq, ← h.promptWidth_eq]
  cases hmulti : v.multiline with
  | true => rw [drawnColumn_of_multiline hmulti, hcursor, Nat.mod_eq_of_lt hroom, Nat.zero_add]
  | false =>
    rw [drawnColumn_of_single hmulti]
    omega

/-- At the start nothing but the row of the cursor is remembered. -/
theorem ShownFrom.ready_initial {s : Screen} {top : Nat} (hshown : v.ShownFrom s top) :
    v.Ready .initial s ∧ v.landing .initial s = s.row := by
  have hlast : v.lastErased .initial s = s.row := by
    rw [lastErased]
    split <;> rfl
  refine ⟨⟨hshown.wellFormed, hshown.columns_eq, fun _ => Nat.zero_le _, ?_⟩, ?_⟩
  · rw [hlast]
    refine hshown.blankFrom (by have := hshown.row_eq; omega) ?_
    have hlength := h.length_prompt
    rw [drawnText_of_empty hline hhinter]
    have hend := Nat.lt_mul_div_succ (promptWidth v.prompt - 1) v.width_pos
    rw [hshown.row_eq, drawnRow_of_empty h hline, Nat.add_assoc, Nat.add_sub_cancel_left,
      Nat.mul_comm]
    omega
  · rw [landing]
    split <;> rfl

end Prompt

end LineView

end Typeline
