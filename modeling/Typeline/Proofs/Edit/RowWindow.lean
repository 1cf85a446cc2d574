import Typeline.Edit.View
import Typeline.Proofs.Edit.CursorBoundary
import Typeline.Proofs.Text.Columns

/-!
# The part of a line that is shown on a single row

Clusters are left out at the start of a line until the cursor fits into the row, and then at its
end until the rest fits. The columns up to the cursor are counted in the text before the cursor,
and the columns that are taken off are those of the clusters of the whole text. As long as the
cursor stands between two clusters the two counts agree, and all numbers stay in range.

A cursor inside of a cluster breaks the agreement: the text before the cursor ends in a part of
the cluster. Numbers leave their range only if scrolling takes off that very cluster, which means
that the prompt leaves hardly any room; `LineView.Overruns` says when exactly.

## Main definitions

* `Window.dropStart`, `Window.dropEnd` : a window with clusters left out.
* `LineView.Cut` : the clusters of a line, cut where the window starts and ends and at the cursor.
* `LineView.Overruns` : scrolling takes off more columns than were counted.

## Main results

* `LineView.exists_cut` : the window if the cursor stands between two clusters.
* `LineView.inRange_drawRow_iff` : when all numbers of a drawing on a single row stay in range.
-/

namespace Typeline

theorem length_flatten_reverse (parts : List Text) :
    parts.reverse.flatten.length = parts.flatten.length := by
  rw [List.length_flatten, List.length_flatten, List.map_reverse, List.sum_reverse]

namespace Window

variable {width : Text → Nat} {prompt columns cursor : Nat} {w : Window}

/-- A window with some clusters left out at its start. -/
def dropStart (width : Text → Nat) (w : Window) (parts : List Text) : Window :=
  { w with
    start := w.start + parts.flatten.length
    cursorColumn := w.cursorColumn - columnsOf width parts
    width := w.width - columnsOf width parts }

/-- A window with some clusters left out at its end. -/
def dropEnd (width : Text → Nat) (w : Window) (parts : List Text) : Window :=
  { w with
    stop := w.stop - parts.flatten.length
    width := w.width - columnsOf width parts }

theorem dropEnd_reverse (width : Text → Nat) (w : Window) (parts : List Text) :
    w.dropEnd width parts.reverse = w.dropEnd width parts := by
  rw [dropEnd, dropEnd, length_flatten_reverse, columnsOf_reverse]

/-! ### Leaving out clusters at the start -/

theorem scroll_of_fits {parts : List Text} (h : prompt + w.cursorColumn < columns) :
    w.scroll width prompt columns cursor parts = w := by
  cases parts with
  | nil => rfl
  | cons part parts => rw [scroll, if_neg (by omega)]

theorem scroll_of_start {parts : List Text} (h : cursor ≤ w.start) :
    w.scroll width prompt columns cursor parts = w := by
  cases parts with
  | nil => rfl
  | cons part parts => rw [scroll, if_neg (by omega)]

/-- Scrolling over clusters before the cursor: either it stops at one of them, since the cursor
fits, or it goes on behind them. -/
theorem scroll_append (width : Text → Nat) (prompt columns cursor : Nat) (w : Window)
    {parts : List Text} (hparts : ∀ part ∈ parts, part ≠ [])
    (hstart : w.start + parts.flatten.length ≤ cursor)
    (hcolumn : columnsOf width parts ≤ w.cursorColumn) (hwidth : columnsOf width parts ≤ w.width)
    (rest : List Text) :
    (∃ left kept, parts = left ++ kept ∧ prompt + (w.dropStart width left).cursorColumn < columns ∧
      w.scroll width prompt columns cursor (parts ++ rest) = w.dropStart width left) ∨
      w.scroll width prompt columns cursor (parts ++ rest) =
        (w.dropStart width parts).scroll width prompt columns cursor rest := by
  induction parts generalizing w with
  | nil => exact Or.inr rfl
  | cons part parts ih =>
    have hpart := List.length_pos_iff.mpr (hparts part List.mem_cons_self)
    rw [List.flatten_cons, List.length_append] at hstart
    rw [columnsOf_cons] at hcolumn hwidth
    by_cases hfits : prompt + w.cursorColumn < columns
    · exact Or.inl ⟨[], part :: parts, rfl, hfits, scroll_of_fits hfits⟩
    · have hstep : w.scroll width prompt columns cursor (part :: parts ++ rest) =
          (w.dropStart width [part]).scroll width prompt columns cursor (parts ++ rest) := by
        rw [List.cons_append, scroll, if_pos (by omega)]
        simp [dropStart, show width part ≤ w.cursorColumn by omega,
          show width part ≤ w.width by omega]
      have hdrop : ∀ left, (w.dropStart width [part]).dropStart width left =
          w.dropStart width (part :: left) := by
        intro left
        simp [dropStart, Nat.add_assoc, Nat.sub_sub]
      have ih' := ih (w.dropStart width [part])
        (fun part hmem => hparts part (List.mem_cons_of_mem _ hmem))
        (by simp only [dropStart, List.flatten_singleton]; omega)
        (by simp only [dropStart, columnsOf_cons, columnsOf_nil]; omega)
        (by simp only [dropStart, columnsOf_cons, columnsOf_nil]; omega)
      rw [hstep]
      rcases ih' with ⟨left, kept, rfl, hcolumns, hscroll⟩ | hscroll
      · rw [hdrop] at hcolumns hscroll
        exact Or.inl ⟨part :: left, kept, rfl, hcolumns, hscroll⟩
      · rw [hdrop] at hscroll
        exact Or.inr hscroll

/-! ### Leaving out clusters at the end -/

theorem trim_of_fits {parts : List Text} (h : prompt + w.width ≤ columns) :
    w.trim width prompt columns cursor parts = w := by
  cases parts with
  | nil => rfl
  | cons part parts => rw [trim, if_neg (by omega)]

theorem trim_of_stop {parts : List Text} (h : w.stop ≤ cursor) :
    w.trim width prompt columns cursor parts = w := by
  cases parts with
  | nil => rfl
  | cons part parts => rw [trim, if_neg (by omega)]

/-- Trimming over clusters behind the cursor: either it stops at one of them, since the rest fits,
or it goes on before them. -/
theorem trim_append (width : Text → Nat) (prompt columns cursor : Nat) (w : Window)
    {parts : List Text} (hparts : ∀ part ∈ parts, part ≠ [])
    (hstop : cursor + parts.flatten.length ≤ w.stop) (hwidth : columnsOf width parts ≤ w.width)
    (rest : List Text) :
    (∃ right kept, parts = right ++ kept ∧ prompt + (w.dropEnd width right).width ≤ columns ∧
      w.trim width prompt columns cursor (parts ++ rest) = w.dropEnd width right) ∨
      w.trim width prompt columns cursor (parts ++ rest) =
        (w.dropEnd width parts).trim width prompt columns cursor rest := by
  induction parts generalizing w with
  | nil => exact Or.inr rfl
  | cons part parts ih =>
    have hpart := List.length_pos_iff.mpr (hparts part List.mem_cons_self)
    rw [List.flatten_cons, List.length_append] at hstop
    rw [columnsOf_cons] at hwidth
    by_cases hfits : prompt + w.width ≤ columns
    · exact Or.inl ⟨[], part :: parts, rfl, hfits, trim_of_fits hfits⟩
    · have hstep : w.trim width prompt columns cursor (part :: parts ++ rest) =
          (w.dropEnd width [part]).trim width prompt columns cursor (parts ++ rest) := by
        rw [List.cons_append, trim, if_pos (by omega)]
        simp [dropEnd, show width part ≤ w.width by omega]
      have hdrop : ∀ right, (w.dropEnd width [part]).dropEnd width right =
          w.dropEnd width (part :: right) := by
        intro right
        simp [dropEnd, Nat.sub_sub]
      have ih' := ih (w.dropEnd width [part])
        (fun part hmem => hparts part (List.mem_cons_of_mem _ hmem))
        (by simp only [dropEnd, List.flatten_singleton]; omega)
        (by simp only [dropEnd, columnsOf_cons, columnsOf_nil]; omega)
      rw [hstep]
      rcases ih' with ⟨right, kept, rfl, hcolumns, htrim⟩ | htrim
      · rw [hdrop] at hcolumns htrim
        exact Or.inl ⟨part :: right, kept, rfl, hcolumns, htrim⟩
      · rw [hdrop] at htrim
        exact Or.inr htrim

end Window

namespace Line

/-- The text before the cluster that the cursor stands behind or in. -/
def beforeCluster (l : Line) : Text := (backward l.before l.after).1.reverse

/-- The cluster that the cursor stands in. -/
def clusterAtCursor (l : Line) : Text :=
  partBefore l.before l.after ++ partAfter l.before l.after

/-- The clusters behind the cluster that the cursor stands in. -/
def clustersBehind (l : Line) : List Text :=
  clustersAfter (forward l.before l.after).1 (forward l.before l.after).2

end Line

namespace LineView

/-- The columns from the start of the cluster at the cursor to the cursor, as they are counted. -/
def inset (v : LineView) : Nat :=
  contentWidth v.masked v.line.textBefore - columnsOf v.shownWidth (clusters v.line.beforeCluster)

/-- The columns that are counted in the whole line beyond those of its clusters. -/
def surplus (v : LineView) : Nat :=
  contentWidth v.masked v.line.text - columnsOf v.shownWidth (clusters v.line.text)

/-- The cursor stands inside of a cluster, scrolling takes this cluster off, and either fewer
columns were counted up to the cursor or trimming takes the cluster off a second time. -/
def Overruns (v : LineView) : Prop :=
  ¬v.line.OnBoundary ∧ v.width ≤ promptWidth v.prompt + v.inset ∧
    (v.inset < v.shownWidth v.line.clusterAtCursor ∨
      v.width < promptWidth v.prompt + v.surplus)

instance (v : LineView) : Decidable v.Overruns := inferInstanceAs (Decidable (_ ∧ _))

private theorem inRange_drawRow (v : LineView) (state : DrawState) (mode : RefreshMode) :
    (v.drawRow state mode).inRange = (v.window.inRange && v.window.start ≤ v.window.stop) := by
  rw [drawRow]
  split <;> rfl

theorem columnsOf_of_masked {v : LineView} (hmasked : v.masked = true) (parts : List Text) :
    columnsOf v.shownWidth parts = parts.length := by
  have hone : v.shownWidth = fun _ => 1 := by
    funext cluster
    exact if_pos hmasked
  simp [hone, columnsOf, List.map_const']

/-- The columns that are counted in a text are those of its clusters, if the clusters are counted
right. -/
theorem contentWidth_eq_columnsOf {v : LineView} {t : Text}
    (hcount : v.masked = true → clusterCount t = (clusters t).length) :
    contentWidth v.masked t = columnsOf v.shownWidth (clusters t) := by
  rw [contentWidth]
  split
  · next hmasked => rw [columnsOf_of_masked hmasked, hcount hmasked]
  · next hmasked =>
    have hwidth : v.shownWidth = clusterWidth := by
      funext cluster
      exact if_neg hmasked
    rw [hwidth, textWidth_eq]

/-- The columns that are counted in a text cover those of its clusters. -/
theorem columnsOf_clusters_le (v : LineView) (t : Text) :
    columnsOf v.shownWidth (clusters t) ≤ contentWidth v.masked t := by
  by_cases hmasked : v.masked = true
  · rw [contentWidth, if_pos hmasked, columnsOf_of_masked hmasked]
    exact length_clusters_le t
  · exact Nat.le_of_eq (contentWidth_eq_columnsOf fun h => absurd h hmasked).symm

/-! ### A cursor between two clusters -/

/-- The place of the cursor, counted in characters. -/
def place (v : LineView) : Nat := v.line.before.length

/-- The window that leaves out clusters at the start alone. -/
def scrolled (v : LineView) : Window :=
  v.wholeWindow.scroll v.shownWidth (promptWidth v.prompt) v.width v.place (clusters v.line.text)

/-- The clusters of a line, cut where the window starts, at the cursor and where the window ends.
Clusters before the cursor are left out until the cursor fits, and clusters behind it until the rest
fits. -/
structure Cut (v : LineView) (left shownBefore shownAfter right : List Text) : Prop where
  before_eq : clusters v.line.textBefore = left ++ shownBefore
  after_eq : clustersAfter v.line.before v.line.after = shownAfter ++ right
  text_eq : clusters v.line.text = left ++ shownBefore ++ shownAfter ++ right
  scrolled_eq : v.scrolled = v.wholeWindow.dropStart v.shownWidth left
  window_eq : v.window = v.scrolled.dropEnd v.shownWidth right
  cursor_fits : shownBefore = [] ∨ promptWidth v.prompt + v.window.cursorColumn < v.width
  fits : shownAfter = [] ∨ promptWidth v.prompt + v.window.width ≤ v.width

section Between

variable {v : LineView} (h : v.line.OnBoundary)

include h

theorem clusters_text_of_onBoundary : clusters v.line.text =
    clusters v.line.textBefore ++ clustersAfter v.line.before v.line.after := by
  have happend := clusters_append (s := v.line.textBefore) (t := v.line.after)
    (by rw [Line.textBefore, List.reverse_reverse]; exact h)
  rwa [Line.textBefore, List.reverse_reverse] at happend

/-- Scrolling ends in front of the cursor. -/
theorem scroll_of_onBoundary :
    ∃ left shownBefore, clusters v.line.textBefore = left ++ shownBefore ∧
      v.wholeWindow.scroll v.shownWidth (promptWidth v.prompt) v.width v.line.before.length
        (clusters v.line.text) = v.wholeWindow.dropStart v.shownWidth left ∧
      (shownBefore = [] ∨
        promptWidth v.prompt + (v.wholeWindow.dropStart v.shownWidth left).cursorColumn <
          v.width) := by
  have hcursor : (clusters v.line.textBefore).flatten.length = v.line.before.length := by
    rw [flatten_clusters, Line.textBefore, List.length_reverse]
  have hwidth := v.columnsOf_clusters_le v.line.text
  rw [clusters_text_of_onBoundary h, columnsOf_append] at hwidth
  rw [clusters_text_of_onBoundary h]
  rcases Window.scroll_append v.shownWidth (promptWidth v.prompt) v.width
    v.line.before.length v.wholeWindow (fun part hmem => ne_nil_of_mem_clusters hmem)
    (by rw [hcursor]; exact Nat.le_of_eq (Nat.zero_add _)) (v.columnsOf_clusters_le _)
    (Nat.le_trans (Nat.le_add_right _ _) hwidth)
    (clustersAfter v.line.before v.line.after) with ⟨left, kept, hleft, hfits, heq⟩ | heq
  · exact ⟨left, kept, hleft, heq, Or.inr hfits⟩
  · refine ⟨_, [], (List.append_nil _).symm, ?_, Or.inl rfl⟩
    rw [heq, Window.scroll_of_start]
    simp [Window.dropStart, hcursor]

/-- Trimming ends behind the cursor. -/
theorem trim_of_onBoundary {left shownBefore : List Text}
    (hleft : clusters v.line.textBefore = left ++ shownBefore) :
    ∃ shownAfter right, clustersAfter v.line.before v.line.after = shownAfter ++ right ∧
      (v.wholeWindow.dropStart v.shownWidth left).trim v.shownWidth (promptWidth v.prompt) v.width
          v.line.before.length (clusters v.line.text).reverse =
        (v.wholeWindow.dropStart v.shownWidth left).dropEnd v.shownWidth right ∧
      (shownAfter = [] ∨ promptWidth v.prompt +
        ((v.wholeWindow.dropStart v.shownWidth left).dropEnd v.shownWidth right).width ≤
          v.width) := by
  have hlength : v.line.text.length =
      v.line.before.length + (clustersAfter v.line.before v.line.after).flatten.length := by
    rw [flatten_clustersAfter, Line.text, List.length_append, List.length_reverse]
  have hwidth := v.columnsOf_clusters_le v.line.text
  rw [clusters_text_of_onBoundary h, columnsOf_append, hleft, columnsOf_append] at hwidth
  rw [clusters_text_of_onBoundary h, List.reverse_append]
  rcases Window.trim_append v.shownWidth (promptWidth v.prompt) v.width
    v.line.before.length (v.wholeWindow.dropStart v.shownWidth left)
    (fun part hmem => ne_nil_of_mem_clustersAfter (List.mem_reverse.mp hmem))
    (by
      rw [length_flatten_reverse, ← hlength]
      exact Nat.le_refl _)
    (by
      rw [columnsOf_reverse]
      change _ ≤ contentWidth v.masked v.line.text - columnsOf v.shownWidth left
      omega)
    (clusters v.line.textBefore).reverse with ⟨right, kept, hright, hfits, heq⟩ | heq
  · refine ⟨kept.reverse, right.reverse, ?_, ?_, Or.inr ?_⟩
    · rw [← List.reverse_append, ← hright, List.reverse_reverse]
    · rw [heq, Window.dropEnd_reverse]
    · rwa [Window.dropEnd_reverse]
  · refine ⟨[], clustersAfter v.line.before v.line.after, rfl, ?_, Or.inl rfl⟩
    rw [heq, Window.trim_of_stop, Window.dropEnd_reverse]
    rw [Window.dropEnd_reverse]
    change v.line.text.length - _ ≤ _
    omega

/-- **The window of a line.** If the cursor stands between two clusters, so do the ends of the
window. -/
theorem exists_cut : ∃ left shownBefore shownAfter right,
    v.Cut left shownBefore shownAfter right := by
  obtain ⟨left, shownBefore, hleft, hscroll, hcursorFits⟩ := scroll_of_onBoundary h
  obtain ⟨shownAfter, right, hright, htrim, hfits⟩ := trim_of_onBoundary h hleft
  have hscrolled : v.scrolled = v.wholeWindow.dropStart v.shownWidth left := hscroll
  have hwindow : v.window = v.scrolled.dropEnd v.shownWidth right := by
    rw [hscrolled, window, hscroll, htrim]
  refine ⟨left, shownBefore, shownAfter, right, hleft, hright, ?_, hscrolled, hwindow, ?_, ?_⟩
  · rw [clusters_text_of_onBoundary h, hleft, hright, List.append_assoc (left ++ shownBefore)]
  · rwa [hwindow, hscrolled]
  · rwa [hwindow, hscrolled]

end Between

namespace Cut

variable {v : LineView} {left shownBefore shownAfter right : List Text}
  (cut : v.Cut left shownBefore shownAfter right)

include cut

theorem place_eq : v.place = left.flatten.length + shownBefore.flatten.length := by
  have hbefore := congrArg List.length (flatten_clusters v.line.textBefore)
  rw [cut.before_eq, List.flatten_append, List.length_append, Line.textBefore, List.length_reverse]
    at hbefore
  exact hbefore.symm

theorem start_eq : v.window.start = left.flatten.length := by
  rw [cut.window_eq, cut.scrolled_eq]
  exact Nat.zero_add _

theorem stop_eq :
    v.window.stop = left.flatten.length + (shownBefore ++ shownAfter).flatten.length := by
  have hlength := congrArg List.length (flatten_clusters v.line.text)
  rw [cut.text_eq, List.append_assoc left, List.flatten_append, List.flatten_append,
    List.length_append, List.length_append] at hlength
  rw [cut.window_eq, cut.scrolled_eq]
  change v.line.text.length - right.flatten.length = _
  rw [← hlength, Nat.add_sub_cancel]

theorem start_le : v.window.start ≤ v.place := by
  rw [cut.start_eq, cut.place_eq]
  exact Nat.le_add_right _ _

theorem le_stop : v.place ≤ v.window.stop := by
  rw [cut.place_eq, cut.stop_eq, List.flatten_append, List.length_append]
  exact Nat.add_le_add_left (Nat.le_add_right _ _) _

end Cut

/-- A window that ends in front of the cursor is in range and has a start before its end. -/
theorem inRange_window_of_onBoundary {v : LineView} (h : v.line.OnBoundary) :
    v.window.inRange = true ∧ v.window.start ≤ v.window.stop := by
  obtain ⟨left, shownBefore, shownAfter, right, cut⟩ := exists_cut h
  refine ⟨?_, Nat.le_trans cut.start_le cut.le_stop⟩
  rw [cut.window_eq, cut.scrolled_eq]
  rfl

/-! ### A cursor inside of a cluster -/

theorem length_before_eq (v : LineView) : v.line.before.length =
    v.line.beforeCluster.length + (partBefore v.line.before v.line.after).length := by
  have hspec := congrArg List.length (partBefore_spec v.line.before v.line.after).1
  rw [List.length_append, List.length_reverse] at hspec
  rw [Line.beforeCluster, List.length_reverse]
  omega

theorem length_text_eq (v : LineView) : v.line.text.length =
    v.line.before.length + (partAfter v.line.before v.line.after).length +
      v.line.clustersBehind.flatten.length := by
  have hspec := congrArg List.length (partAfter_spec v.line.before v.line.after)
  rw [List.length_append] at hspec
  rw [Line.text, List.length_append, List.length_reverse, Line.clustersBehind,
    flatten_clustersAfter]
  omega

theorem length_clusterAtCursor (v : LineView) : v.line.clusterAtCursor.length =
    (partBefore v.line.before v.line.after).length +
      (partAfter v.line.before v.line.after).length := by
  rw [Line.clusterAtCursor, List.length_append]

section Inside

variable {v : LineView} (h : ¬v.line.OnBoundary)

include h

theorem before_ne_nil : v.line.before ≠ [] := by
  intro hnil
  rw [Line.OnBoundary, hnil] at h
  exact h (isBoundary_nil_left _)

theorem after_ne_nil : v.line.after ≠ [] := by
  intro hnil
  rw [Line.OnBoundary, hnil] at h
  exact h (isBoundary_nil_right _)

theorem clusters_text_eq : clusters v.line.text =
    clusters v.line.beforeCluster ++ v.line.clusterAtCursor :: v.line.clustersBehind :=
  clusters_split (by simpa [Line.OnBoundary] using h)

private theorem columnsOf_beforeCluster_le :
    columnsOf v.shownWidth (clusters v.line.beforeCluster) ≤
      contentWidth v.masked v.line.textBefore := by
  have hle := v.columnsOf_clusters_le v.line.textBefore
  rw [Line.textBefore, clusters_before (before_ne_nil h) v.line.after, columnsOf_append] at hle
  exact Nat.le_trans (Nat.le_add_right _ _) hle

/-- The columns that are counted in the whole line cover those of the three parts of it. -/
theorem columnsOf_inside_le : columnsOf v.shownWidth (clusters v.line.beforeCluster) +
    (v.shownWidth v.line.clusterAtCursor + columnsOf v.shownWidth v.line.clustersBehind) ≤
      contentWidth v.masked v.line.text := by
  have hwidth := v.columnsOf_clusters_le v.line.text
  rwa [clusters_text_eq h, columnsOf_append, columnsOf_cons] at hwidth

/-- Scrolling takes the cluster at the cursor off if its parts leave no room for the cursor. -/
theorem scroll_of_inside :
    (v.width ≤ promptWidth v.prompt + v.inset ∧
      v.wholeWindow.scroll v.shownWidth (promptWidth v.prompt) v.width v.line.before.length
          (clusters v.line.text) =
        { v.wholeWindow.dropStart v.shownWidth
            (clusters v.line.beforeCluster ++ [v.line.clusterAtCursor]) with
          inRange := v.shownWidth v.line.clusterAtCursor ≤ v.inset }) ∨
    (promptWidth v.prompt + v.inset < v.width ∧
      ∃ left kept, clusters v.line.beforeCluster = left ++ kept ∧
        v.wholeWindow.scroll v.shownWidth (promptWidth v.prompt) v.width v.line.before.length
          (clusters v.line.text) = v.wholeWindow.dropStart v.shownWidth left) := by
  have hlength := v.length_before_eq
  have hcolumn := columnsOf_beforeCluster_le h
  have hwidth := columnsOf_inside_le h
  have hflatten := congrArg List.length (flatten_clusters v.line.beforeCluster)
  have hpart := List.length_pos_iff.mpr (partBefore_ne_nil (before_ne_nil h) v.line.after)
  rw [clusters_text_eq h]
  rcases Window.scroll_append v.shownWidth (promptWidth v.prompt) v.width
    v.line.before.length v.wholeWindow (fun part hmem => ne_nil_of_mem_clusters hmem)
    (by
      change 0 + _ ≤ _
      omega) hcolumn
    (Nat.le_trans (Nat.le_add_right _ _) hwidth) (v.line.clusterAtCursor :: v.line.clustersBehind)
    with ⟨left, kept, hleft, hfits, heq⟩ | heq
  · refine Or.inr ⟨?_, left, kept, hleft, heq⟩
    rw [inset, hleft, columnsOf_append]
    change promptWidth v.prompt + (contentWidth v.masked v.line.textBefore - _) < _ at hfits
    omega
  · rw [heq]
    by_cases hfits : promptWidth v.prompt + v.inset < v.width
    · exact Or.inr ⟨hfits, _, [], (List.append_nil _).symm, Window.scroll_of_fits hfits⟩
    · refine Or.inl ⟨Nat.le_of_not_lt hfits, ?_⟩
      have hstart : (v.wholeWindow.dropStart v.shownWidth (clusters v.line.beforeCluster)).start <
          v.line.before.length := by
        change 0 + _ < _
        omega
      rw [Window.scroll, if_pos ⟨Nat.le_of_not_lt hfits, hstart⟩, Window.scroll_of_start]
      · have hroom : v.shownWidth v.line.clusterAtCursor ≤ contentWidth v.masked v.line.text -
            columnsOf v.shownWidth (clusters v.line.beforeCluster) := by omega
        simp only [Window.dropStart, wholeWindow, List.flatten_append, List.flatten_singleton,
          List.length_append, columnsOf_append, columnsOf_cons, columnsOf_nil, Nat.sub_sub,
          Nat.add_assoc, Nat.add_zero, hroom, inset, decide_true, Bool.and_true, Bool.true_and]
        rfl
      · have hcluster := v.length_clusterAtCursor
        change _ ≤ 0 + _ + _
        omega

/-- Trimming takes the cluster at the cursor off if all that stands before it and in it leaves too
little room. -/
theorem trim_of_inside {w : Window} (hstop : w.stop = v.line.text.length)
    (hwidth : columnsOf v.shownWidth v.line.clustersBehind ≤ w.width) :
    (promptWidth v.prompt + (w.dropEnd v.shownWidth v.line.clustersBehind).width ≤ v.width ∧
      ∃ kept right, v.line.clustersBehind = kept ++ right ∧
        w.trim v.shownWidth (promptWidth v.prompt) v.width v.line.before.length
          (clusters v.line.text).reverse = w.dropEnd v.shownWidth right) ∨
    (v.width < promptWidth v.prompt + (w.dropEnd v.shownWidth v.line.clustersBehind).width ∧
      w.trim v.shownWidth (promptWidth v.prompt) v.width v.line.before.length
          (clusters v.line.text).reverse =
        { w.dropEnd v.shownWidth (v.line.clusterAtCursor :: v.line.clustersBehind) with
          inRange := w.inRange && v.shownWidth v.line.clusterAtCursor ≤
            (w.dropEnd v.shownWidth v.line.clustersBehind).width }) := by
  have hlength := v.length_text_eq
  have hpart := List.length_pos_iff.mpr (partAfter_ne_nil v.line.before (after_ne_nil h))
  have hparts : ∀ part ∈ v.line.clustersBehind.reverse, part ≠ [] := fun part hmem =>
    ne_nil_of_mem_clustersAfter (List.mem_reverse.mp hmem)
  rw [clusters_text_eq h, List.reverse_append, List.reverse_cons, List.append_assoc,
    List.singleton_append]
  rcases Window.trim_append v.shownWidth (promptWidth v.prompt) v.width
    v.line.before.length w hparts (by rw [length_flatten_reverse]; omega)
    (by rwa [columnsOf_reverse])
    (v.line.clusterAtCursor :: (clusters v.line.beforeCluster).reverse)
    with ⟨right, kept, hright, hfits, heq⟩ | heq
  · have hbehind : v.line.clustersBehind = kept.reverse ++ right.reverse := by
      rw [← List.reverse_append, ← hright, List.reverse_reverse]
    refine Or.inl ⟨?_, kept.reverse, right.reverse, hbehind, ?_⟩
    · change promptWidth v.prompt + (w.width - columnsOf v.shownWidth right) ≤ v.width at hfits
      change promptWidth v.prompt + (w.width - columnsOf v.shownWidth v.line.clustersBehind) ≤ _
      rw [hbehind, columnsOf_append, columnsOf_reverse, columnsOf_reverse]
      omega
    · rw [heq, Window.dropEnd_reverse]
  · rw [heq, Window.dropEnd_reverse]
    by_cases hfits : promptWidth v.prompt +
        (w.dropEnd v.shownWidth v.line.clustersBehind).width ≤ v.width
    · exact Or.inl ⟨hfits, [], _, rfl, Window.trim_of_fits hfits⟩
    · refine Or.inr ⟨Nat.lt_of_not_le hfits, ?_⟩
      have hcluster := v.length_clusterAtCursor
      have hend : v.line.before.length <
          (w.dropEnd v.shownWidth v.line.clustersBehind).stop := by
        change _ < w.stop - _
        omega
      rw [Window.trim, if_pos ⟨Nat.lt_of_not_le hfits, hend⟩, Window.trim_of_stop]
      · simp only [Window.dropEnd, List.flatten_cons, List.length_append, columnsOf_cons,
          Nat.sub_sub, Nat.add_comm]
      · change w.stop - _ - _ ≤ _
        omega

/-- If scrolling takes the cluster at the cursor off, numbers stay in range as long as its columns
were counted and trimming finds enough room without it. -/
theorem inRange_window_of_scrolled
    (hscroll : v.wholeWindow.scroll v.shownWidth (promptWidth v.prompt) v.width
        v.line.before.length (clusters v.line.text) =
      { v.wholeWindow.dropStart v.shownWidth
          (clusters v.line.beforeCluster ++ [v.line.clusterAtCursor]) with
        inRange := v.shownWidth v.line.clusterAtCursor ≤ v.inset }) :
    (v.window.inRange = true ∧ v.window.start ≤ v.window.stop) ↔
      v.shownWidth v.line.clusterAtCursor ≤ v.inset ∧
        promptWidth v.prompt + v.surplus ≤ v.width := by
  have hlength := v.length_text_eq
  have hbefore := v.length_before_eq
  have hcluster := v.length_clusterAtCursor
  have hpart := List.length_pos_iff.mpr (partAfter_ne_nil v.line.before (after_ne_nil h))
  have hwidth := columnsOf_inside_le h
  have hstart : (clusters v.line.beforeCluster ++ [v.line.clusterAtCursor]).flatten.length =
      v.line.beforeCluster.length + v.line.clusterAtCursor.length := by
    rw [List.flatten_append, List.length_append, List.flatten_singleton, flatten_clusters]
  rw [window, hscroll]
  generalize hw : ({ v.wholeWindow.dropStart v.shownWidth
    (clusters v.line.beforeCluster ++ [v.line.clusterAtCursor]) with
      inRange := v.shownWidth v.line.clusterAtCursor ≤ v.inset } : Window) = w
  have hroom : w.width = contentWidth v.masked v.line.text -
      (columnsOf v.shownWidth (clusters v.line.beforeCluster) +
        v.shownWidth v.line.clusterAtCursor) := by
    rw [← hw]
    change contentWidth v.masked v.line.text - columnsOf v.shownWidth _ = _
    rw [columnsOf_append, columnsOf_cons, columnsOf_nil, Nat.add_zero]
  -- What is left for trimming to look at is the surplus.
  have hsurplus : (w.dropEnd v.shownWidth v.line.clustersBehind).width = v.surplus := by
    change w.width - columnsOf v.shownWidth v.line.clustersBehind = _
    rw [hroom, surplus, clusters_text_eq h, columnsOf_append, columnsOf_cons, Nat.sub_sub,
      Nat.add_assoc]
  have hrange : w.inRange = decide (v.shownWidth v.line.clusterAtCursor ≤ v.inset) := by rw [← hw]
  have hbegin : w.start = v.line.beforeCluster.length + v.line.clusterAtCursor.length := by
    rw [← hw, ← hstart]
    exact Nat.zero_add _
  have hend : w.stop = v.line.text.length := by
    rw [← hw]
    rfl
  rcases trim_of_inside h hend (by omega) with ⟨hfits, kept, right, hright, htrim⟩ | ⟨hfits, htrim⟩
  · have hbehind := congrArg (fun parts => parts.flatten.length) hright
    simp only [List.flatten_append, List.length_append] at hbehind
    rw [hsurplus] at hfits
    rw [htrim, Window.dropEnd, hrange, decide_eq_true_eq]
    refine and_congr_right fun _ => iff_of_true ?_ hfits
    simp only
    omega
  · rw [hsurplus] at hfits
    rw [htrim]
    refine iff_of_false (fun hinside => ?_) fun hinside => Nat.not_le_of_lt hfits hinside.2
    have hends := hinside.2
    rw [Window.dropEnd, List.flatten_cons, List.length_append] at hends
    simp only at hends
    omega

/-- If scrolling stops in front of the cluster at the cursor, all numbers stay in range. -/
theorem inRange_window_of_kept {left kept : List Text}
    (hleft : clusters v.line.beforeCluster = left ++ kept)
    (hscroll : v.wholeWindow.scroll v.shownWidth (promptWidth v.prompt) v.width
        v.line.before.length (clusters v.line.text) = v.wholeWindow.dropStart v.shownWidth left) :
    v.window.inRange = true ∧ v.window.start ≤ v.window.stop := by
  have hlength := v.length_text_eq
  have hbefore := v.length_before_eq
  have hcluster := v.length_clusterAtCursor
  have hwidth := columnsOf_inside_le h
  rw [hleft, columnsOf_append] at hwidth
  have hroom : (v.wholeWindow.dropStart v.shownWidth left).width =
      contentWidth v.masked v.line.text - columnsOf v.shownWidth left := rfl
  have hstart := congrArg List.length (flatten_clusters v.line.beforeCluster)
  rw [hleft, List.flatten_append, List.length_append] at hstart
  rw [window, hscroll]
  rcases trim_of_inside h (w := v.wholeWindow.dropStart v.shownWidth left) rfl
      (by rw [hroom]; omega) with ⟨-, kept, right, hright, htrim⟩ | ⟨-, htrim⟩
  · have hbehind := congrArg (fun parts => parts.flatten.length) hright
    simp only [List.flatten_append, List.length_append] at hbehind
    rw [htrim]
    refine ⟨rfl, ?_⟩
    change 0 + _ ≤ v.line.text.length - _
    omega
  · rw [htrim]
    refine ⟨?_, ?_⟩
    · rw [Bool.and_eq_true, decide_eq_true_eq, Window.dropEnd, hroom]
      refine ⟨rfl, ?_⟩
      simp only
      omega
    · change 0 + _ ≤ v.line.text.length - _
      rw [List.flatten_cons, List.length_append]
      omega

/-- A cursor inside of a cluster takes the window out of range if scrolling takes this cluster off
and takes off more columns than were counted, or trimming takes it off again. -/
theorem inRange_window_of_inside :
    (v.window.inRange = true ∧ v.window.start ≤ v.window.stop) ↔ ¬v.Overruns := by
  rcases scroll_of_inside h with ⟨hscrolls, hscroll⟩ | ⟨hfits, left, kept, hleft, hscroll⟩
  · rw [inRange_window_of_scrolled h hscroll, Overruns]
    simp only [h, hscrolls, not_false_eq_true, true_and, not_or, Nat.not_lt]
  · exact iff_of_true (inRange_window_of_kept h hleft hscroll)
      fun hover => Nat.not_le_of_lt hfits hover.2.1

end Inside

/-- **Range of a drawing on a single row.** All numbers stay in range unless the cursor stands
inside of a cluster that scrolling takes off with more columns than were counted. -/
theorem inRange_drawRow_iff (v : LineView) (state : DrawState) (mode : RefreshMode) :
    (v.drawRow state mode).inRange = true ↔ ¬v.Overruns := by
  rw [inRange_drawRow, Bool.and_eq_true, decide_eq_true_eq]
  by_cases h : v.line.OnBoundary
  · exact iff_of_true (inRange_window_of_onBoundary h) fun hoverruns => hoverruns.1 h
  · exact inRange_window_of_inside h

end LineView

end Typeline
