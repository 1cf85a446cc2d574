import Mathlib.Order.Bounds.Basic
import Typeline.Proofs.Edit.Glyphs
import Typeline.Proofs.Edit.RowWindow

/-!
# The window of a line, from border to border

The part of a line that is shown on a single row is found cluster by cluster, with numbers of
columns that are brought up to date and never counted again. What comes of it can be said without
that. If the cursor stands between two clusters and the prompt leaves room, the window starts at the
first border from which the cursor fits into the row, and it ends at the last border, not before the
cursor, up to which the line fits. The columns in between are those that the clusters there take by
themselves.

## Main definitions

* `LineView.span` : the columns between two positions of the line.

## Main results

* `LineView.span_add` : columns add up from border to border.
* `LineView.isLeast_start`, `LineView.isGreatest_stop` : where the window starts and ends.
* `LineView.drawRow_window` : a drawing on a single row.
-/

namespace Typeline

namespace Window

variable {width : Text → Nat} {prompt columns cursor : Nat} {w : Window}

/-- Clusters are left out at the start only as long as the cursor does not fit. -/
theorem le_of_lt_scroll {left parts : List Text} (hleft : left <+: parts)
    (h : w.start + left.flatten.length < (w.scroll width prompt columns cursor parts).start) :
    columns ≤ prompt + (w.dropStart width left).cursorColumn := by
  induction left generalizing w parts with
  | nil =>
    by_contra hfits
    have hkept : w.scroll width prompt columns cursor parts = w :=
      scroll_of_fits (Nat.lt_of_not_le hfits)
    rw [hkept] at h
    exact absurd h (Nat.not_lt.mpr (Nat.le_add_right _ _))
  | cons part left ih =>
    obtain ⟨rest, rfl⟩ := hleft
    rw [List.flatten_cons, List.length_append] at h
    rw [List.cons_append, scroll] at h
    split at h
    · have hlater := ih (List.prefix_append left rest) (Nat.lt_of_le_of_lt (by simp; omega) h)
      simpa [dropStart, Nat.sub_sub] using hlater
    · exact absurd h (Nat.not_lt.mpr (Nat.le_add_right _ _))

/-- Clusters are left out at the end only as long as the rest does not fit. -/
theorem lt_of_trim_lt {right parts : List Text} (hright : right <+: parts)
    (h : (w.trim width prompt columns cursor parts).stop + right.flatten.length < w.stop) :
    columns < prompt + (w.dropEnd width right).width := by
  induction right generalizing w parts with
  | nil =>
    by_contra hfits
    have hkept : w.trim width prompt columns cursor parts = w :=
      trim_of_fits (Nat.le_of_not_lt hfits)
    rw [hkept] at h
    exact absurd h (Nat.not_lt.mpr (Nat.le_add_right _ _))
  | cons part right ih =>
    obtain ⟨rest, rfl⟩ := hright
    rw [List.flatten_cons, List.length_append, Nat.add_comm part.length, ← Nat.add_assoc] at h
    rw [List.cons_append, trim] at h
    split at h
    · have hlater := ih (List.prefix_append right rest) (Nat.lt_sub_of_add_lt h)
      simpa [dropEnd, Nat.sub_sub] using hlater
    · rw [Nat.add_assoc] at h
      exact absurd h (Nat.not_lt.mpr (Nat.le_add_right _ _))

end Window

namespace LineView

/-- The columns that the clusters between two positions of the line take by themselves. -/
def span (v : LineView) (i j : Nat) : Nat :=
  columnsOf v.shownWidth (clusters (part v.line.text i j))

variable {v : LineView}

/-- Columns add up from border to border. -/
theorem span_add {i j k : Nat} (hi : IsBorder v.line.text i) (hj : IsBorder v.line.text j)
    (hij : i ≤ j) (hjk : j ≤ k) (hk : k ≤ v.line.text.length) :
    v.span i j + v.span j k = v.span i k := by
  rw [span, span, span, clusters_part hi hj hij hjk hk, columnsOf_append]

private theorem place_le (v : LineView) : v.place ≤ v.line.text.length := by
  rw [place, Line.text, List.length_append, List.length_reverse]
  exact Nat.le_add_right _ _

private theorem textBefore_eq_part (v : LineView) :
    v.line.textBefore = part v.line.text 0 v.place := by
  rw [part, List.drop_zero, place, Line.text, ← List.length_reverse, List.take_left,
    Line.textBefore]

section Columns

variable (hpairs : v.masked = true → ¬['\r', '\n'] <:+: v.line.text)

include hpairs

/-- The columns that are counted up to the cursor and in the whole line. -/
theorem wholeWindow_eq_columnsOf :
    v.wholeWindow.cursorColumn = columnsOf v.shownWidth (clusters v.line.textBefore) ∧
      v.wholeWindow.width = columnsOf v.shownWidth (clusters v.line.text) := by
  have hbefore : v.line.textBefore <:+: v.line.text := (List.prefix_append _ _).isInfix
  constructor
  · exact contentWidth_eq_columnsOf fun hmasked =>
      clusterCount_eq_length fun hpair => hpairs hmasked (hpair.trans hbefore)
  · exact contentWidth_eq_columnsOf fun hmasked => clusterCount_eq_length (hpairs hmasked)

theorem wholeWindow_eq_span : v.wholeWindow.cursorColumn = v.span 0 v.place ∧
    v.wholeWindow.width = v.span 0 v.line.text.length := by
  obtain ⟨hcursor, hwidth⟩ := wholeWindow_eq_columnsOf hpairs
  rw [hcursor, hwidth, textBefore_eq_part, span, span, part_zero_length]
  exact ⟨rfl, rfl⟩

end Columns

namespace Cut

variable {left shownBefore shownAfter right : List Text}
  (cut : v.Cut left shownBefore shownAfter right)

include cut

theorem isBorder_start : IsBorder v.line.text v.window.start := by
  have hcut : clusters v.line.text = left ++ (shownBefore ++ shownAfter ++ right) := by
    rw [cut.text_eq, List.append_assoc left, List.append_assoc left]
  rw [cut.start_eq]
  exact isBorder_of_clusters_eq hcut

private theorem isBorder_stop : IsBorder v.line.text v.window.stop := by
  rw [cut.stop_eq, ← List.length_append, ← List.flatten_append, ← List.append_assoc]
  exact isBorder_of_clusters_eq cut.text_eq

private theorem clusters_left : clusters (part v.line.text 0 v.window.start) = left := by
  have hcut : clusters v.line.text = [] ++ left ++ (shownBefore ++ shownAfter ++ right) := by
    rw [cut.text_eq, List.nil_append, List.append_assoc left, List.append_assoc left]
  have hpart := clusters_part_of_eq hcut
  rwa [List.flatten_nil, List.length_nil, Nat.zero_add, ← cut.start_eq] at hpart

theorem span_place : v.span v.window.start v.place = columnsOf v.shownWidth shownBefore := by
  have hcut : clusters v.line.text = left ++ shownBefore ++ (shownAfter ++ right) := by
    rw [cut.text_eq, List.append_assoc (left ++ shownBefore)]
  rw [span, cut.start_eq, cut.place_eq, clusters_part_of_eq hcut]

theorem span_stop :
    v.span v.window.start v.window.stop = columnsOf v.shownWidth (shownBefore ++ shownAfter) := by
  have hcut : clusters v.line.text = left ++ (shownBefore ++ shownAfter) ++ right := by
    rw [cut.text_eq, List.append_assoc left]
  rw [span, cut.start_eq, cut.stop_eq, clusters_part_of_eq hcut]

section Pairs

variable (hpairs : v.masked = true → ¬['\r', '\n'] <:+: v.line.text)

include hpairs

/-- The column that was brought up to date is the one that counting again would give. -/
theorem cursorColumn_eq : v.window.cursorColumn = v.span v.window.start v.place := by
  rw [cut.span_place, cut.window_eq, cut.scrolled_eq]
  change v.wholeWindow.cursorColumn - columnsOf v.shownWidth left = _
  rw [(wholeWindow_eq_columnsOf hpairs).1, cut.before_eq, columnsOf_append, Nat.add_sub_cancel_left]

theorem width_eq : v.window.width = v.span v.window.start v.window.stop := by
  rw [cut.span_stop, cut.window_eq, cut.scrolled_eq]
  change v.wholeWindow.width - columnsOf v.shownWidth left - columnsOf v.shownWidth right = _
  rw [(wholeWindow_eq_columnsOf hpairs).2, cut.text_eq, List.append_assoc left, columnsOf_append,
    columnsOf_append, Nat.sub_right_comm, Nat.add_sub_cancel, Nat.add_sub_cancel_left]

theorem span_place_lt (hprompt : promptWidth v.prompt < v.width) :
    promptWidth v.prompt + v.span v.window.start v.place < v.width := by
  rcases cut.cursor_fits with rfl | hfits
  · rwa [cut.span_place, columnsOf_nil, Nat.add_zero]
  · rwa [← cut.cursorColumn_eq hpairs]

private theorem span_stop_le (hprompt : promptWidth v.prompt < v.width) :
    promptWidth v.prompt + v.span v.window.start v.window.stop ≤ v.width := by
  rcases cut.fits with rfl | hfits
  · rw [cut.span_stop, List.append_nil, ← cut.span_place]
    exact Nat.le_of_lt (cut.span_place_lt hpairs hprompt)
  · rwa [← cut.width_eq hpairs]

end Pairs

end Cut

section Between

variable (h : v.line.OnBoundary) (hpairs : v.masked = true → ¬['\r', '\n'] <:+: v.line.text)
  (hprompt : promptWidth v.prompt < v.width)

include h hpairs hprompt

/-- **Where the window starts.** It starts at the first border from which the cursor fits into the
row. -/
theorem isLeast_start : IsLeast {i | IsBorder v.line.text i ∧ i ≤ v.place ∧
    promptWidth v.prompt + v.span i v.place < v.width} v.window.start := by
  obtain ⟨left, shownBefore, shownAfter, right, cut⟩ := exists_cut h
  refine ⟨⟨cut.isBorder_start, cut.start_le, cut.span_place_lt hpairs hprompt⟩,
    fun i ⟨hi, hile, hfits⟩ => ?_⟩
  by_contra hlt
  -- The clusters before an earlier border were left out, so the cursor did not fit behind them.
  have hstart : v.scrolled.start = v.window.start := by
    rw [cut.window_eq]
    rfl
  have hleft : clusters (part v.line.text 0 i) <+: clusters v.line.text :=
    ⟨_, (clusters_eq_append hi).symm⟩
  have hbehind : v.wholeWindow.start + (clusters (part v.line.text 0 i)).flatten.length <
      v.scrolled.start := by
    rw [flatten_clusters, length_part hi.1, hstart]
    change 0 + (i - 0) < _
    omega
  have hnofit : v.width ≤ promptWidth v.prompt + (v.wholeWindow.cursorColumn - v.span 0 i) :=
    Window.le_of_lt_scroll hleft hbehind
  have hspan := span_add (isBorder_zero _) hi (Nat.zero_le i) hile v.place_le
  rw [(wholeWindow_eq_span hpairs).1] at hnofit
  omega

/-- **Where the window ends.** It ends at the last border behind the cursor up to which the line
fits. -/
theorem isGreatest_stop : IsGreatest {j | IsBorder v.line.text j ∧ v.place ≤ j ∧
    promptWidth v.prompt + v.span v.window.start j ≤ v.width} v.window.stop := by
  obtain ⟨left, shownBefore, shownAfter, right, cut⟩ := exists_cut h
  refine ⟨⟨cut.isBorder_stop, cut.le_stop, cut.span_stop_le hpairs hprompt⟩,
    fun j ⟨hj, hle, hfits⟩ => ?_⟩
  by_contra hlt
  -- The clusters behind a later border were left out, so the line did not fit up to there.
  have hright : (clusters (part v.line.text j v.line.text.length)).reverse <+:
      (clusters v.line.text).reverse := by
    refine ⟨(clusters (part v.line.text 0 j)).reverse, ?_⟩
    rw [← List.reverse_append, ← clusters_eq_append hj]
  have hlength : (clusters (part v.line.text j v.line.text.length)).reverse.flatten.length =
      v.line.text.length - j := by
    rw [length_flatten_reverse, flatten_clusters, length_part (Nat.le_refl _)]
  have hbefore : v.window.stop +
      (clusters (part v.line.text j v.line.text.length)).reverse.flatten.length <
        v.scrolled.stop := by
    have := hj.1
    rw [hlength, cut.scrolled_eq]
    change _ < v.line.text.length
    omega
  have hnofit : v.width < promptWidth v.prompt + (v.scrolled.dropEnd v.shownWidth
      (clusters (part v.line.text j v.line.text.length)).reverse).width :=
    Window.lt_of_trim_lt hright hbefore
  rw [Window.dropEnd_reverse, cut.scrolled_eq, ← cut.clusters_left] at hnofit
  change v.width < promptWidth v.prompt + (v.wholeWindow.width - v.span 0 v.window.start -
    v.span j v.line.text.length) at hnofit
  have hfirst := span_add (isBorder_zero _) cut.isBorder_start (Nat.zero_le _)
    cut.isBorder_start.1 (Nat.le_refl _)
  have hsecond := span_add cut.isBorder_start hj
    (Nat.le_trans cut.start_le hle) hj.1 (Nat.le_refl _)
  rw [(wholeWindow_eq_span hpairs).2] at hnofit
  omega

/-- **A drawing on a single row.** If the cursor stands between two clusters and the prompt leaves
room, the line is drawn from the first border from which the cursor fits into the row to the last
one up to which it fits. What is written last puts the cursor of the terminal into its column, if
that is in reach of the sequence for it. All numbers stay in range. -/
theorem drawRow_window (state : DrawState) (mode : RefreshMode) :
    IsLeast {i | IsBorder v.line.text i ∧ i ≤ v.place ∧
        promptWidth v.prompt + v.span i v.place < v.width} v.window.start ∧
      IsGreatest {j | IsBorder v.line.text j ∧ v.place ≤ j ∧
        promptWidth v.prompt + v.span v.window.start j ≤ v.width} v.window.stop ∧
      (mode.writes = true → (v.drawRow state mode).text = '\r' :: v.prompt ++
        content v.masked (part v.line.text v.window.start v.window.stop) ++ v.hintPart.text ++
        (if promptWidth v.prompt + v.span v.window.start v.window.stop + v.hintPart.width < v.width
          then eraseToEnd else []) ++
        '\r' :: forwardBy (promptWidth v.prompt + v.span v.window.start v.place)) ∧
      (promptWidth v.prompt + v.span v.window.start v.place ≤ 65535 →
        ∀ s : Screen, s.columns = v.width → ∃ s',
          s.Shows ('\r' :: forwardBy (promptWidth v.prompt + v.span v.window.start v.place)) s' ∧
            s'.row = s.row ∧ s'.column = promptWidth v.prompt + v.span v.window.start v.place) ∧
      (v.drawRow state mode).inRange = true := by
  have hstart := isLeast_start h hpairs hprompt
  refine ⟨hstart, isGreatest_stop h hpairs hprompt, fun hwrites => ?_, fun hreach s hcolumns => ?_,
    (inRange_drawRow_iff v state mode).mpr fun hoverruns => hoverruns.1 h⟩
  · obtain ⟨left, shownBefore, shownAfter, right, cut⟩ := exists_cut h
    rw [drawRow, if_pos hwrites, ← cut.cursorColumn_eq hpairs, ← cut.width_eq hpairs]
    rfl
  · have hcolumn : promptWidth v.prompt + v.span v.window.start v.place < v.width := hstart.1.2.2
    refine ⟨_, shows_forwardBy s (Or.inl hreach), rfl, ?_⟩
    rw [Screen.moveTo_column, hcolumns]
    exact Nat.min_eq_left (Nat.le_sub_one_of_lt hcolumn)

end Between

/-- A line of wide characters, letters and an accent on six columns, with the cursor in the
middle. -/
def tightView : LineView where
  prompt := ['>']
  line := ⟨['b', '\u0301', 'a', '文', '中'], ['c', '中', 'd'], 80⟩
  columns := 6
  multiline := false
  masked := false
  hinter := none

/-- The first wide character is left out, since the cursor would not fit behind it, and the row is
full up to the last column before the third one. The cursor is in the last column. -/
theorem drawRow_window_tightView :
    IsLeast {i | IsBorder tightView.line.text i ∧ i ≤ 5 ∧ 1 + tightView.span i 5 < 6} 1 ∧
      IsGreatest {j | IsBorder tightView.line.text j ∧ 5 ≤ j ∧ 1 + tightView.span 1 j ≤ 6} 6 ∧
      (tightView.drawRow .initial .all).text =
        ['\r', '>', '文', 'a', '\u0301', 'b', 'c', '\r', '\x1B', '[', '5', 'C'] ∧
      (∃ s, (Screen.blank 6).Shows ['\r', '\x1B', '[', '5', 'C'] s ∧ s.row = 0 ∧ s.column = 5) ∧
      (tightView.drawRow .initial .all).inRange = true := by
  have hborder : tightView.line.OnBoundary := by decide +kernel
  obtain ⟨hstart, hstop, htext, hcursor, hrange⟩ := drawRow_window hborder
    (fun hmasked => absurd hmasked Bool.false_ne_true) (by decide +kernel) .initial .all
  have hwindow : tightView.window.start = 1 ∧ tightView.window.stop = 6 := by decide +kernel
  have hcolumns : promptWidth tightView.prompt = 1 ∧ tightView.span 1 5 = 4 ∧
      tightView.span 1 6 = 5 := by decide +kernel
  rw [hwindow.1, hwindow.2] at hstop htext
  rw [hwindow.1] at hstart hcursor
  rw [hcolumns.1] at hstart hstop htext hcursor
  rw [show tightView.place = 5 from rfl, hcolumns.2.1] at hcursor
  refine ⟨hstart, hstop, ?_, hcursor (by decide) (.blank 6) rfl, hrange⟩
  rw [htext rfl, hcolumns.2.2, show tightView.place = 5 from rfl, hcolumns.2.1]
  rfl

end LineView

end Typeline
