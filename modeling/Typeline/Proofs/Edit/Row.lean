import Typeline.Proofs.Edit.Glyphs
import Typeline.Proofs.Edit.RowWindow

/-!
# Drawing on a single row

A drawing on a single row shows the prompt, the part of the line in the window, and the hint. If
every character is a cluster of its own that is printed in one or two columns, this fills the row up
to a column, and everything behind it is erased. When the row is full nothing is left to erase. So
what the row showed before does not matter, not even halves of wide characters.

A character that is typed at the end of a line that fits, with room for one column more, adds its
cells behind those of the line. That is what drawing the new line would show.

## Main definitions

* `LineView.RowShown` : the row of the cursor shows the line.
* `Screen.SameRow` : two screens show the same in the rows of their cursors.

## Main results

* `LineView.DrawsAlone.window_spec` : the window of the line, in characters.
* `LineView.DrawsAlone.shows_drawRow` : drawing shows the line on the row of the cursor.
* `LineView.DrawsAlone.shows_typed` : writing the typed character shows the new line.
-/

namespace Typeline

open Screen (cellsOf)

namespace LineView

/-- The prompt, the line in its window, and the hint, as they are shown. -/
def rowText (v : LineView) : Text := v.shownText (v.window.slice v.line.text)

/-- The row of the cursor shows the prompt, the line in its window and the hint, with the cursor in
its place, and nothing is drawn elsewhere. -/
structure RowShown (v : LineView) (s : Screen) : Prop where
  cell_eq : ∀ row column, column < v.width → s.cell row column =
    if row = s.row then (cellsOf v.rowText)[column]?.getD .blank else .blank
  column_eq : s.column = promptWidth v.prompt + v.window.cursorColumn
  wrapPending_eq : s.wrapPending = false
  afterJoiner_eq : s.afterJoiner = false

/-- A line for which there is room is shown as a whole. -/
theorem window_of_fits {v : LineView} (hcursor : v.cursorWidth < v.width)
    (hused : v.usedWidth ≤ v.width) : v.window = v.wholeWindow := by
  have hscroll : v.wholeWindow.scroll v.shownWidth (promptWidth v.prompt) v.width
      v.line.before.length (clusters v.line.text) = v.wholeWindow :=
    Window.scroll_of_fits hcursor
  rw [window, hscroll]
  exact Window.trim_of_fits hused

theorem slice_wholeWindow (v : LineView) : v.wholeWindow.slice v.line.text = v.line.text := by
  rw [Window.slice, wholeWindow, List.take_length, List.drop_zero]

theorem slice_infix (v : LineView) : v.window.slice v.line.text <:+: v.line.text :=
  (List.drop_suffix _ _).isInfix.trans (List.take_prefix _ _).isInfix

theorem drawRow_text (v : LineView) (d : DrawState) : (v.drawRow d .all).text =
    ['\r'] ++ (v.prompt ++ content v.masked (v.window.slice v.line.text) ++ v.hintPart.text ++
      (if promptWidth v.prompt + v.window.width + v.hintPart.width < v.width then eraseToEnd
        else [])) ++ '\r' :: forwardBy (promptWidth v.prompt + v.window.cursorColumn) :=
  rfl

namespace DrawsAlone

variable {limit : Nat} {v : LineView} (h : v.DrawsAlone limit)

include h

/-! ### The window in characters -/

theorem onBoundary : v.line.OnBoundary := by
  have hboundary := h.line.isBoundary (s := v.line.textBefore) (t := v.line.after)
  rwa [Line.textBefore, List.reverse_reverse] at hboundary

section Append

variable {part part' : Text} (hparts : part ++ part' <:+: v.line.text)

include hparts

theorem content_append :
    content v.masked (part ++ part') = content v.masked part ++ content v.masked part' := by
  have hleft := (List.prefix_append part part').isInfix.trans hparts
  have hright := (List.suffix_append part part').isInfix.trans hparts
  rw [h.content_eq hparts, h.content_eq hleft, h.content_eq hright]
  split
  · rw [List.length_append, ← List.replicate_append_replicate]
  · rfl

theorem contentWidth_append : contentWidth v.masked (part ++ part') =
    contentWidth v.masked part + contentWidth v.masked part' := by
  have hleft := (List.prefix_append part part').isInfix.trans hparts
  have hright := (List.suffix_append part part').isInfix.trans hparts
  rw [h.contentWidth_eq hparts, h.contentWidth_eq hleft, h.contentWidth_eq hright,
    h.content_append hparts, Screen.cellsOf_append, List.length_append]

end Append

/-- The columns of characters that are left out are those that were counted for them. -/
theorem columnsOf_part {part : Text} (hpart : part <:+: v.line.text) :
    columnsOf v.shownWidth (part.map fun c => [c]) = contentWidth v.masked part := by
  have hown := h.ownClusters_part hpart
  have hcount : clusterCount part = (clusters part).length := by
    rw [hown.count, hown, List.length_map]
  rw [contentWidth_eq_columnsOf fun _ => hcount, hown]

private theorem clusters_textBefore :
    clusters v.line.textBefore = v.line.textBefore.map fun c => [c] := by
  exact h.ownClusters_part v.line.textBefore_infix

private theorem clustersAfter_after :
    clustersAfter v.line.before v.line.after = v.line.after.map fun c => [c] :=
  (clustersAfter_eq_clusters h.onBoundary).trans
    (h.ownClusters_part (List.suffix_append _ _).isInfix)

/-- **The window in characters.** It shows some characters before the cursor and some behind it, and
counts the columns of those. -/
theorem window_spec : ∃ left shownBefore shownAfter right,
    v.line.textBefore = left ++ shownBefore ∧ v.line.after = shownAfter ++ right ∧
    v.window.slice v.line.text = shownBefore ++ shownAfter ∧
    v.window.cursorColumn = contentWidth v.masked shownBefore ∧
    v.window.width = contentWidth v.masked (shownBefore ++ shownAfter) ∧
    (shownBefore = [] ∨ promptWidth v.prompt + v.window.cursorColumn < v.width) ∧
    (shownAfter = [] ∨ promptWidth v.prompt + v.window.width ≤ v.width) := by
  obtain ⟨_, _, _, _, cut⟩ := exists_cut h.onBoundary
  have hwindow := cut.window_eq.trans (congrArg (Window.dropEnd _ · _) cut.scrolled_eq)
  have hclusters := h.clusters_textBefore.symm.trans cut.before_eq
  have hclusters' := h.clustersAfter_after.symm.trans cut.after_eq
  obtain ⟨left, shownBefore, hbefore, rfl, rfl⟩ := List.map_eq_append_iff.mp hclusters
  obtain ⟨shownAfter, right, hafter, rfl, rfl⟩ := List.map_eq_append_iff.mp hclusters'
  have htext : v.line.text = left ++ (shownBefore ++ shownAfter) ++ right := by
    rw [Line.text, ← Line.textBefore, hbefore, hafter]
    simp
  have hstart : left ++ shownBefore <:+: v.line.text := hbefore ▸ v.line.textBefore_infix
  have hwhole : left ++ (shownBefore ++ shownAfter) ++ right <:+: v.line.text :=
    htext ▸ List.infix_refl _
  have hkept : left ++ (shownBefore ++ shownAfter) <:+: v.line.text :=
    (List.prefix_append _ right).isInfix.trans hwhole
  have hleft := h.columnsOf_part ((List.prefix_append left shownBefore).isInfix.trans hstart)
  have hright := h.columnsOf_part ((List.suffix_append _ right).isInfix.trans hwhole)
  have hlength (t : Text) : (t.map fun c => [c]).flatten.length = t.length := by
    rw [← List.flatMap_def, List.flatMap_singleton']
  refine ⟨left, shownBefore, shownAfter, right, hbefore, hafter, ?_, ?_, ?_,
    cut.cursor_fits.imp_left List.map_eq_nil_iff.mp, cut.fits.imp_left List.map_eq_nil_iff.mp⟩
  · rw [hwindow]
    change (v.line.text.take (v.line.text.length - _)).drop (0 + _) = _
    rw [hlength, hlength, htext, List.length_append, Nat.add_sub_cancel, List.take_left,
      Nat.zero_add, List.drop_left]
  · rw [hwindow]
    change contentWidth v.masked v.line.textBefore - _ = _
    rw [hleft, hbefore, h.contentWidth_append hstart]
    omega
  · rw [hwindow]
    change contentWidth v.masked v.line.text - _ - _ = _
    rw [hleft, hright, htext, h.contentWidth_append hwhole, h.contentWidth_append hkept]
    omega

private theorem window_width_le : v.window.width ≤ contentWidth v.masked v.line.text := by
  obtain ⟨_, _, _, _, cut⟩ := exists_cut h.onBoundary
  rw [cut.window_eq, cut.scrolled_eq]
  change contentWidth v.masked v.line.text - _ - _ ≤ _
  omega

/-- The columns that are counted for what is shown are the cells that it fills. -/
theorem length_rowText : (cellsOf v.rowText).length =
    promptWidth v.prompt + v.window.width + v.hintPart.width := by
  obtain ⟨-, hhint, -⟩ := h.hint_spec
  obtain ⟨-, shownBefore, shownAfter, -, -, -, hslice, -, hwidth, -⟩ := h.window_spec
  rw [rowText, shownText, Screen.cellsOf_append, Screen.cellsOf_append, List.length_append,
    List.length_append, ← h.promptWidth_eq, ← h.contentWidth_eq v.slice_infix, hslice, ← hwidth,
    ← hhint]

/-- The row has room for all that is shown, and for the cursor. -/
theorem row_spec (hprompt : promptWidth v.prompt < v.width) :
    (cellsOf v.rowText).length ≤ v.width ∧
      promptWidth v.prompt + v.window.cursorColumn < v.width := by
  obtain ⟨-, hhint, hfits⟩ := h.hint_spec
  obtain ⟨-, shownBefore, shownAfter, -, -, -, -, hcursor, hwidth, hbefore, hafter⟩ :=
    h.window_spec
  have hnone : contentWidth v.masked [] = 0 := by
    rw [h.contentWidth_eq (List.nil_infix), h.content_eq List.nil_infix]
    split <;> rfl
  have hroom : promptWidth v.prompt + v.window.cursorColumn < v.width := by
    rcases hbefore with rfl | hroom
    · rw [hcursor, hnone]
      exact hprompt
    · exact hroom
  refine ⟨?_, hroom⟩
  rw [h.length_rowText]
  rcases hfits with hempty | hfits
  · rw [hhint, hempty]
    change _ + 0 ≤ _
    rcases hafter with rfl | hfits
    · rw [hwidth, List.append_nil, ← hcursor]
      omega
    · omega
  · have hle := h.window_width_le
    rw [usedWidth] at hfits
    omega

end DrawsAlone

namespace DrawsAlone

variable {v : LineView} (h : v.DrawsAlone 2)

include h

theorem charWidth_rowText : ∀ c ∈ v.rowText, charWidth c = 1 ∨ charWidth c = 2 := by
  intro c hc
  have hwidth := h.charWidth_shownText Nat.two_pos v.slice_infix c hc
  omega

/-- Printing the shown text from the start of a row, and erasing what is behind it. -/
theorem shows_rowText {s : Screen} (hcolumns : s.columns = v.width)
    (hjoiner : s.afterJoiner = false) :
    s.Shows (v.prompt ++ content v.masked (v.window.slice v.line.text) ++ v.hintPart.text ++
      (if promptWidth v.prompt + v.window.width + v.hintPart.width < v.width then eraseToEnd
        else [])) (s.overwrite v.rowText) := by
  have hshows := h.shows_shownText Nat.two_pos v.slice_infix hjoiner
  rw [← rowText] at hshows
  rw [← h.length_rowText, Screen.overwrite, hcolumns]
  split
  · exact hshows.append (Screen.shows_eraseToEnd _)
  · rwa [List.append_nil]

end DrawsAlone

/-! ### Typing at the end of the line -/

theorem cursorWidth_of_after_eq_nil {v : LineView} (h : v.line.after = []) :
    v.cursorWidth = v.usedWidth := by
  rw [cursorWidth, usedWidth, Line.text, h, List.append_nil, ← Line.textBefore]

theorem shownHint_of_no_hinter {v : LineView} (h : v.hinter = none) : v.shownHint = [] := by
  rw [shownHint, h]

/-- A line without a hint, with the cursor at its end, for which there is room is shown as a whole,
with the cursor behind all that is shown. -/
theorem rowText_of_fits {v : LineView} (h : v.DrawsAlone 2) (hhinter : v.hinter = none)
    (hend : v.line.after = []) (hfits : v.usedWidth < v.width) :
    v.rowText = v.prompt ++ content v.masked v.line.text ∧
      (cellsOf v.rowText).length = v.usedWidth ∧
      promptWidth v.prompt + v.window.cursorColumn = v.usedWidth := by
  have hcursor := cursorWidth_of_after_eq_nil hend
  have hwindow : v.window = v.wholeWindow :=
    window_of_fits (by rw [hcursor]; exact hfits) (Nat.le_of_lt hfits)
  have htext : v.rowText = v.prompt ++ content v.masked v.line.text := by
    rw [rowText, hwindow, slice_wholeWindow, shownText, shownHint_of_no_hinter hhinter,
      List.append_nil]
  refine ⟨htext, ?_, by rw [hwindow]; exact hcursor⟩
  rw [htext, Screen.cellsOf_append, List.length_append, ← h.promptWidth_eq,
    ← h.contentWidth_eq (List.infix_refl _), usedWidth]

/-- Characters that are printed behind a text on the row add to it. -/
theorem RowShown.putAll {v v' : LineView} {s : Screen} (h : v.RowShown s) (hs : s.WellFormed)
    (hcolumns : s.columns = v.width) {t : Text} (ht : ∀ c ∈ t, charWidth c = 1 ∨ charWidth c = 2)
    (htext : v'.rowText = v.rowText ++ t) (hsame : v'.width = v.width)
    (hend : s.column = (cellsOf v.rowText).length)
    (hend' : promptWidth v'.prompt + v'.window.cursorColumn = (cellsOf v'.rowText).length)
    (hroom : (cellsOf v'.rowText).length < v.width) : v'.RowShown (s.putAll t) := by
  rw [htext, Screen.cellsOf_append, List.length_append] at hroom hend'
  have hfits : s.column + (cellsOf t).length < s.columns := by omega
  obtain ⟨hpending, hcolumn⟩ :=
    Screen.cursor_putAll_of_room ht h.wrapPending_eq (Nat.le_of_lt hfits) hfits
  have hrow := Screen.row_putAll_of_fits ht h.wrapPending_eq (Nat.le_of_lt hfits)
  have hpos : ∀ c ∈ t, 0 < charWidth c := fun c hc => by
    have hwidth := ht c hc
    omega
  refine ⟨fun row column hlt => ?_, by omega, hpending,
    (Screen.shows_putAll h.afterJoiner_eq hpos).2⟩
  rw [Screen.cell_putAll_of_fits ht h.wrapPending_eq (Nat.le_of_lt hfits) hs,
    h.cell_eq row column (by omega), hrow, hend, htext, Screen.cellsOf_append, List.getElem?_append]
  by_cases hsame : row = s.row
  · by_cases hbehind : (cellsOf v.rowText).length ≤ column
    · rw [if_pos ⟨hsame, hbehind⟩, if_pos hsame, if_pos hsame, if_neg (by omega),
        List.getElem?_eq_none hbehind]
      rfl
    · rw [if_neg (by omega), if_pos hsame, if_pos hsame, if_pos (by omega)]
  · rw [if_neg (by omega), if_neg hsame, if_neg hsame]

section Typed

variable {v : LineView} {line : Line} (h : v.DrawsAlone 2) (h' : { v with line }.DrawsAlone 2)
  {c : Char} (hline : line.text = v.line.text ++ [c])

include h' hline

private theorem content_typed : content v.masked [c] = [if v.masked then maskGlyph else c] := by
  have hlast : [c] <:+: line.text := hline ▸ (List.suffix_append v.line.text [c]).isInfix
  refine (h'.content_eq hlast).trans ?_
  change (if v.masked = true then _ else _) = _
  split <;> rfl

theorem content_text_typed : content v.masked line.text =
    content v.masked v.line.text ++ [if v.masked then maskGlyph else c] := by
  have hparts : v.line.text ++ [c] <:+: line.text := hline ▸ List.infix_refl _
  rw [← content_typed h' hline, hline]
  exact h'.content_append hparts

include h in
theorem usedWidth_le_typed : v.usedWidth ≤ { v with line }.usedWidth := by
  have hwidth := h'.contentWidth_eq (List.infix_refl _)
  change contentWidth v.masked line.text = (cellsOf (content v.masked line.text)).length at hwidth
  change promptWidth v.prompt + contentWidth v.masked v.line.text ≤
    promptWidth v.prompt + contentWidth v.masked line.text
  rw [hwidth, content_text_typed h' hline, h.contentWidth_eq (List.infix_refl _),
    Screen.cellsOf_append, List.length_append]
  omega

include h in
/-- **Writing the typed character.** At the end of a line that is shown without a hint, with room
for more, the character adds its cells to the row, which then shows the new line. -/
theorem shows_typed (hhinter : v.hinter = none) (hend : v.line.after = [])
    (hend' : line.after = []) (hfits : { v with line }.usedWidth < v.width) {s : Screen}
    (hs : s.WellFormed) (hcolumns : s.columns = v.width) (hshown : v.RowShown s) :
    ∃ s', s.Shows [if v.masked then maskGlyph else c] s' ∧ s'.WellFormed ∧
      { v with line }.RowShown s' := by
  have hle := usedWidth_le_typed h h' hline
  obtain ⟨htext, hlength, hcursor⟩ := rowText_of_fits h hhinter hend (by omega)
  obtain ⟨htext', hlength', hcursor'⟩ := rowText_of_fits h' hhinter hend' hfits
  have hnew : { v with line }.rowText = v.rowText ++ [if v.masked then maskGlyph else c] := by
    rw [htext', htext, List.append_assoc, ← content_text_typed h' hline]
  have hwidths : ∀ d ∈ [if v.masked then maskGlyph else c], charWidth d = 1 ∨ charWidth d = 2 := by
    intro d hd
    exact h'.charWidth_rowText d (by rw [hnew]; exact List.mem_append_right _ hd)
  have hpos : ∀ d ∈ [if v.masked then maskGlyph else c], 0 < charWidth d := fun d hd => by
    have hwidth := hwidths d hd
    omega
  refine ⟨_, (Screen.shows_putAll hshown.afterJoiner_eq hpos).1, hs.putAll _,
    hshown.putAll hs hcolumns hwidths hnew rfl ?_ ?_ ?_⟩
  · rw [hshown.column_eq, hcursor, hlength]
  · exact hcursor'.trans hlength'.symm
  · rw [hlength']
    exact hfits

end Typed

end LineView

end Typeline
