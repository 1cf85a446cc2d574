import Mathlib.Order.Bounds.Basic
import Typeline.Proofs.Edit.Block
import Typeline.Proofs.Edit.Row
import Typeline.Proofs.Text.Sums
import Typeline.Session.Basic

/-!
# Hints in the columns that are left

A hint is asked for, once in a drawing, if the prompt and the whole line leave at least one column,
and it is handed back where one was given. As many of its clusters are drawn as fit into the columns
that are left, so that prompt, line and hint take no more columns than there are.

On a single row the cursor has to fit as well, but the columns before it are among those of the
line. So the line is shown as a whole where there is a hint, and what follows is erased unless the
row is full. There is one exception, which is due to how clusters are counted in mask mode: a line
end counts as two in a text of ASCII characters and as one in any other. If only what stands behind
the cursor is not ASCII, the text before the cursor can count more columns than the whole line. Then
the hint is drawn behind a line whose start was left out, and the rest of the row is erased.

## Main definitions

* `Hint.start` : the first clusters of a hint in its style.
* `LineView.DrawnWithHint` : a drawing with a hint.

## Main results

* `fitClusters_eq` : what is drawn of a hint.
* `LineView.cursorWidth_ge_iff` : when the cursor does not fit where the whole line does.
* `LineView.hint_stays_in_row` : hints in a drawing.
-/

namespace Typeline

/-! ### Clusters that fit -/

private theorem columnsOf_take_succ (width : Text → Nat) (part : Text) (parts : List Text)
    (n : Nat) : columnsOf width ((part :: parts).take (n + 1)) =
      width part + columnsOf width (parts.take n) := by
  rw [List.take_succ_cons, columnsOf_cons]

/-- **Clusters that fit.** They are the most that fit from the first one on. -/
theorem fitClusters_eq (room : Nat) (parts : List Text) :
    ∃ n, fitClusters room parts = ((parts.take n).flatten, columnsOf clusterWidth (parts.take n)) ∧
      IsGreatest {n | n ≤ parts.length ∧ columnsOf clusterWidth (parts.take n) ≤ room} n := by
  induction parts generalizing room with
  | nil => exact ⟨0, rfl, ⟨Nat.le_refl 0, Nat.zero_le room⟩, fun n hn => hn.1⟩
  | cons part parts ih =>
    rw [fitClusters]
    by_cases hfits : clusterWidth part ≤ room
    · obtain ⟨n, hfit, ⟨hn, hle⟩, hgreatest⟩ := ih (room - clusterWidth part)
      rw [if_pos hfits, hfit]
      refine ⟨n + 1, ?_, ⟨Nat.succ_le_succ hn, ?_⟩, fun m hm => ?_⟩
      · rw [columnsOf_take_succ]
        rfl
      · rw [columnsOf_take_succ]
        omega
      · cases m with
        | zero => exact Nat.zero_le _
        | succ m =>
          obtain ⟨hm, hcolumns⟩ := hm
          rw [columnsOf_take_succ] at hcolumns
          exact Nat.succ_le_succ (hgreatest ⟨Nat.le_of_succ_le_succ hm, by omega⟩)
    · rw [if_neg hfits]
      refine ⟨0, rfl, ⟨Nat.zero_le _, Nat.zero_le _⟩, fun m hm => ?_⟩
      cases m with
      | zero => exact Nat.le_refl 0
      | succ m =>
        have hcolumns := hm.2
        rw [columnsOf_take_succ] at hcolumns
        omega

/-- The first clusters of a hint, in its style. -/
def Hint.start (h : Hint) (n : Nat) : Text :=
  match h.style with
  | some (before, after) => before ++ ((clusters h.text).take n).flatten ++ after
  | none => ((clusters h.text).take n).flatten

namespace LineView

variable {v : LineView}

/-- What the hinter answers for the line. -/
def hint? (v : LineView) : Option Hint := v.hinter.bind fun hinter => hinter v.line.text

/-- The columns of the prompt, the line and the first clusters of a hint. -/
def widthWith (v : LineView) (hint : Hint) (n : Nat) : Nat :=
  v.usedWidth + columnsOf clusterWidth ((clusters hint.text).take n)

/-! ### The part that shows a hint -/

theorem asked_hintPart_iff :
    v.hintPart.asked = true ↔ v.hinter.isSome = true ∧ v.usedWidth < v.width := by
  rw [hintPart]
  cases v.hinter with
  | none => simp [HintPart.none]
  | some hinter =>
    by_cases hroom : v.width ≤ v.usedWidth
    · simp [hroom, HintPart.none]
    · simp only [if_neg hroom, Option.isSome_some, true_and]
      refine iff_of_true ?_ (Nat.lt_of_not_le hroom)
      cases hinter v.line.text with
      | none => rfl
      | some hint =>
        dsimp only
        cases hint.style <;> rfl

theorem given_hintPart_iff :
    v.hintPart.given = true ↔ v.hintPart.asked = true ∧ v.hint?.isSome = true := by
  rw [hintPart, hint?]
  cases v.hinter with
  | none => simp [HintPart.none]
  | some hinter =>
    by_cases hroom : v.width ≤ v.usedWidth
    · simp [hroom, HintPart.none]
    · simp only [if_neg hroom, Option.bind_some]
      cases hinter v.line.text with
      | none => simp
      | some hint =>
        dsimp only
        cases hint.style <;> simp

/-- Where no hint was given, none is drawn. -/
theorem hintPart_of_not_given (h : v.hintPart.given = false) :
    v.hintPart.text = [] ∧ v.hintPart.width = 0 := by
  rw [hintPart] at h ⊢
  cases hhinter : v.hinter with
  | none => exact ⟨rfl, rfl⟩
  | some hinter =>
    by_cases hroom : v.width ≤ v.usedWidth
    · simp only [if_pos hroom]
      exact ⟨rfl, rfl⟩
    · simp only [hhinter, if_neg hroom] at h ⊢
      cases hhint : hinter v.line.text with
      | none => exact ⟨rfl, rfl⟩
      | some hint =>
        simp only [hhint] at h
        cases hstyle : hint.style <;> simp [hstyle] at h

/-- Where a hint was given, as many of its clusters are drawn as fit, in its style. -/
theorem hintPart_of_given (h : v.hintPart.given = true) :
    ∃ hint n, v.hint? = some hint ∧
      IsGreatest {n | n ≤ (clusters hint.text).length ∧ v.widthWith hint n ≤ v.width} n ∧
      v.hintPart.text = hint.start n ∧
      v.usedWidth + v.hintPart.width = v.widthWith hint n := by
  obtain ⟨hasked, hgiven⟩ := given_hintPart_iff.mp h
  obtain ⟨hhinter, hroom⟩ := asked_hintPart_iff.mp hasked
  obtain ⟨hinter, hhinter⟩ := Option.isSome_iff_exists.mp hhinter
  obtain ⟨hint, hhint⟩ := Option.isSome_iff_exists.mp hgiven
  have hanswer : hinter v.line.text = some hint := by rwa [hint?, hhinter] at hhint
  obtain ⟨n, hfit, hgreatest⟩ := fitClusters_eq (v.width - v.usedWidth) (clusters hint.text)
  have hrooms : ∀ m, columnsOf clusterWidth ((clusters hint.text).take m) ≤ v.width - v.usedWidth ↔
      v.widthWith hint m ≤ v.width := by
    intro m
    rw [widthWith]
    omega
  have hpart : v.hintPart =
      ⟨hint.start n, columnsOf clusterWidth ((clusters hint.text).take n), true, true⟩ := by
    simp only [hintPart, hhinter, if_neg (Nat.not_le_of_lt hroom), hanswer, hfit, Hint.start]
    cases hint.style <;> rfl
  refine ⟨hint, n, hhint, ?_, by rw [hpart], by rw [hpart, widthWith]⟩
  simpa only [hrooms] using hgreatest

/-! ### The line in front of a hint -/

/-- The text before a cursor between two clusters counts no more columns than the line, except for
the line ends of a text of ASCII characters. -/
theorem cursorWidth_le_of_onBoundary (h : v.line.OnBoundary)
    (hcount : v.masked = true → isAscii v.line.textBefore = true → isAscii v.line.text = true) :
    v.cursorWidth ≤ v.usedWidth := by
  refine Nat.add_le_add_left ?_ _
  have hparts := clusters_text_of_onBoundary h
  have hlength : (clusters v.line.textBefore).length ≤ (clusters v.line.text).length := by
    rw [hparts, List.length_append]
    exact Nat.le_add_right _ _
  by_cases hmasked : v.masked = true
  · rw [contentWidth, contentWidth, if_pos hmasked, if_pos hmasked]
    by_cases hascii : isAscii v.line.textBefore = true
    · rw [clusterCount, clusterCount, if_pos hascii, if_pos (hcount hmasked hascii), Line.text,
        List.length_append]
      exact Nat.le_add_right _ _
    · rw [clusterCount, if_neg hascii]
      exact Nat.le_trans hlength (length_clusters_le _)
  · rw [contentWidth, contentWidth, if_neg hmasked, if_neg hmasked, textWidth_eq, textWidth_eq,
      hparts, columnsOf_append]
    exact Nat.le_add_right _ _

/-- In mask mode the line ends of a text of ASCII characters count twice. -/
theorem cursorWidth_of_ascii (hmasked : v.masked = true)
    (hascii : isAscii v.line.textBefore = true) : v.cursorWidth = promptWidth v.prompt +
      ((clusters v.line.textBefore).length + lineEnds v.line.textBefore) := by
  rw [cursorWidth, contentWidth, if_pos hmasked, clusterCount_eq_add, if_pos hascii]

/-- Where the line leaves columns, the cursor fits into the row, unless the text before it is ASCII,
as the whole line is not, and counts more columns by its line ends in mask mode. -/
theorem cursorWidth_ge_iff (h : v.line.OnBoundary) (hroom : v.usedWidth < v.width) :
    v.width ≤ v.cursorWidth ↔ v.masked = true ∧ isAscii v.line.textBefore = true ∧
      isAscii v.line.text = false ∧ v.width ≤ promptWidth v.prompt +
        ((clusters v.line.textBefore).length + lineEnds v.line.textBefore) := by
  constructor
  · intro hwide
    have hcount : ¬(v.masked = true → isAscii v.line.textBefore = true →
        isAscii v.line.text = true) := fun hcount => by
      have hle := cursorWidth_le_of_onBoundary h hcount
      omega
    simp only [Classical.not_imp, Bool.not_eq_true] at hcount
    obtain ⟨hmasked, hascii, hother⟩ := hcount
    exact ⟨hmasked, hascii, hother, cursorWidth_of_ascii hmasked hascii ▸ hwide⟩
  · rintro ⟨hmasked, hascii, -, hwide⟩
    exact (cursorWidth_of_ascii hmasked hascii).symm ▸ hwide

/-- Where the cursor does not fit, the start of the line is left out, and in mask mode at least one
column with it. -/
theorem window_of_cursorWidth_ge (h : v.line.OnBoundary) (hmasked : v.masked = true)
    (hbefore : v.line.textBefore ≠ []) (hcursor : v.width ≤ v.cursorWidth) :
    0 < v.window.start ∧ v.window.width < contentWidth v.masked v.line.text := by
  obtain ⟨left, shownBefore, shownAfter, right, cut⟩ := exists_cut h
  have hleft : left ≠ [] := by
    rintro rfl
    have hcolumn : v.window.cursorColumn = contentWidth v.masked v.line.textBefore := by
      rw [cut.window_eq, cut.scrolled_eq]
      rfl
    have hshown : shownBefore ≠ [] := by
      rintro rfl
      refine hbefore ?_
      rw [← flatten_clusters v.line.textBefore, cut.before_eq]
      rfl
    have hfits := cut.cursor_fits.resolve_left hshown
    rw [hcolumn] at hfits
    exact absurd hcursor (Nat.not_le_of_lt hfits)
  have hfirst : ∀ part ∈ left, part ≠ [] := fun part hmem =>
    ne_nil_of_mem_clusters (t := v.line.textBefore) (cut.before_eq ▸ List.mem_append_left _ hmem)
  have hpos := List.length_pos_iff.mpr hleft
  have hcolumns := v.columnsOf_clusters_le v.line.text
  rw [columnsOf_of_masked hmasked, cut.text_eq, List.length_append, List.length_append,
    List.length_append] at hcolumns
  have hwidth : v.window.width =
      contentWidth v.masked v.line.text - left.length - columnsOf v.shownWidth right := by
    rw [cut.window_eq, cut.scrolled_eq, ← columnsOf_of_masked hmasked left]
    rfl
  refine ⟨?_, by omega⟩
  rw [cut.start_eq]
  exact Nat.lt_of_lt_of_le hpos (length_le_length_flatten hfirst)

/-! ### Drawings -/

private theorem hintAsked_draw (state : DrawState) (mode : RefreshMode) :
    (v.draw state mode).hintAsked = (mode.writes && v.hintPart.asked) := by
  rw [draw, drawRow, drawRows]
  cases v.multiline <;> cases mode <;> rfl

theorem hintReleased_draw (state : DrawState) (mode : RefreshMode) :
    (v.draw state mode).hintReleased = (mode.writes && v.hintPart.given) := by
  rw [draw, drawRow, drawRows]
  cases v.multiline <;> cases mode <;> rfl

/-- The same view with no source of hints. -/
def withoutHints (v : LineView) : LineView := { v with hinter := none }

/-- Without a hint the drawing is that of a view with no source of hints. -/
theorem text_draw_of_not_released {state : DrawState} {mode : RefreshMode}
    (h : (v.draw state mode).hintReleased = false) :
    (v.draw state mode).text = (v.withoutHints.draw state mode).text := by
  rw [hintReleased_draw] at h
  have hrow : (v.drawRow state mode).text = (v.withoutHints.drawRow state mode).text ∧
      (v.drawRows state mode).text = (v.withoutHints.drawRows state mode).text := by
    rw [drawRow, drawRow, drawRows, drawRows]
    by_cases hwrites : mode.writes = true
    · rw [hwrites, Bool.true_and] at h
      obtain ⟨htext, hwidth⟩ := hintPart_of_not_given h
      simp only [if_pos hwrites, htext, hwidth]
      exact ⟨rfl, rfl⟩
    · simp only [if_neg hwrites, and_self]
  rw [draw, draw, show v.withoutHints.multiline = v.multiline from rfl]
  split
  · exact hrow.2
  · exact hrow.1

/-- What is erased before a drawing over several rows. -/
def erased (state : DrawState) (mode : RefreshMode) : Text :=
  (if mode.cleans then eraseRows state else []) ++ '\r' :: eraseToEnd

/-- Over several rows a hint is put in behind the line. -/
theorem exists_text_drawRows (state : DrawState) {mode : RefreshMode} (h : mode.writes = true) :
    ∃ after,
      (v.withoutHints.drawRows state mode).text =
          erased state mode ++ v.prompt ++ content v.masked v.line.text ++ after ∧
        (v.drawRows state mode).text =
          erased state mode ++ v.prompt ++ content v.masked v.line.text ++ v.hintPart.text ++
            after := by
  have hnone : v.withoutHints.hintPart.text = [] := rfl
  refine ⟨(if v.wraps then ['\n', '\r'] else []) ++
    (if v.cursorRow < v.blockRows then
      (ControlSequence.cursorUp (v.blockRows - v.cursorRow)).text else []) ++
    '\r' :: forwardBy (v.cursorWidth % v.width), ?_, ?_⟩
  · rw [drawRows, if_pos h, erased]
    simp only [hnone, List.append_nil, List.append_assoc]
    rfl
  · rw [drawRows, if_pos h, erased]
    simp only [List.append_assoc]
    rfl

/-- A drawing that shows the first `n` clusters of a hint: the most that fit into the columns that
prompt and line leave. Over several rows it is the drawing without a hint, with these clusters put
in behind the line. On a single row the line is shown as a whole if the cursor fits, and what
follows is erased unless the row is full; else the start of the line is left out, and what follows
is erased. The cursor does not fit only if the text before it counts more columns than the line. -/
structure DrawnWithHint (v : LineView) (state : DrawState) (mode : RefreshMode) (hint : Hint)
    (n : Nat) : Prop where
  isGreatest : IsGreatest {n | n ≤ (clusters hint.text).length ∧ v.widthWith hint n ≤ v.width} n
  rows : v.multiline = true → ∃ after,
    (v.withoutHints.draw state mode).text =
        erased state mode ++ v.prompt ++ content v.masked v.line.text ++ after ∧
      (v.draw state mode).text =
        erased state mode ++ v.prompt ++ content v.masked v.line.text ++ hint.start n ++ after
  whole : v.multiline = false → v.cursorWidth < v.width → v.window = v.wholeWindow ∧
    (v.draw state mode).text = '\r' :: v.prompt ++ content v.masked v.line.text ++ hint.start n ++
      (if v.widthWith hint n = v.width then [] else eraseToEnd) ++ '\r' :: forwardBy v.cursorWidth
  trimmed : v.multiline = false → v.width ≤ v.cursorWidth → 0 < v.window.start ∧
    (v.draw state mode).text = '\r' :: v.prompt ++ content v.masked (v.window.slice v.line.text) ++
      hint.start n ++ eraseToEnd ++ '\r' :: forwardBy (promptWidth v.prompt + v.window.cursorColumn)
  trimmed_iff : v.width ≤ v.cursorWidth ↔ v.masked = true ∧ isAscii v.line.textBefore = true ∧
    isAscii v.line.text = false ∧ v.width ≤ promptWidth v.prompt +
      ((clusters v.line.textBefore).length + lineEnds v.line.textBefore)

/-- Where a hint is released, it is drawn as far as it fits. -/
theorem exists_drawnWithHint (h : v.line.OnBoundary) {state : DrawState} {mode : RefreshMode}
    (hreleased : (v.draw state mode).hintReleased = true) :
    ∃ hint n, v.hint? = some hint ∧ v.DrawnWithHint state mode hint n := by
  rw [hintReleased_draw, Bool.and_eq_true] at hreleased
  obtain ⟨hwrites, hgiven⟩ := hreleased
  have hroom := (asked_hintPart_iff.mp (given_hintPart_iff.mp hgiven).1).2
  have hiff := cursorWidth_ge_iff h hroom
  obtain ⟨hint, n, hhint, hgreatest, htext, hwidth⟩ := hintPart_of_given hgiven
  have hfits : v.usedWidth + v.hintPart.width ≤ v.width := hwidth ▸ hgreatest.1.2
  have hrow (hmultiline : v.multiline = false) : (v.draw state mode).text =
      '\r' :: v.prompt ++ content v.masked (v.window.slice v.line.text) ++ hint.start n ++
        (if promptWidth v.prompt + v.window.width + v.hintPart.width < v.width then eraseToEnd
          else []) ++ '\r' :: forwardBy (promptWidth v.prompt + v.window.cursorColumn) := by
    have hsingle : ¬v.multiline = true := hmultiline ▸ Bool.false_ne_true
    rw [draw, if_neg hsingle, drawRow, if_pos hwrites, ← htext]
  refine ⟨hint, n, hhint, hgreatest, fun hmultiline => ?_, fun hmultiline hcursor => ?_,
    fun hmultiline hcursor => ?_, hiff⟩
  · have hwithout : v.withoutHints.multiline = true := hmultiline
    rw [draw, draw, if_pos hmultiline, if_pos hwithout, ← htext]
    exact exists_text_drawRows state hwrites
  · have hwindow := window_of_fits hcursor (Nat.le_of_lt hroom)
    have hwritten : promptWidth v.prompt + v.wholeWindow.width + v.hintPart.width =
        v.widthWith hint n := hwidth
    have herase : (if v.widthWith hint n < v.width then eraseToEnd else []) =
        if v.widthWith hint n = v.width then [] else eraseToEnd := by
      have hle := hgreatest.1.2
      by_cases hfull : v.widthWith hint n = v.width
      · rw [if_pos hfull, if_neg (by omega)]
      · rw [if_neg hfull, if_pos (by omega)]
    refine ⟨hwindow, ?_⟩
    rw [hrow hmultiline, hwindow, slice_wholeWindow, hwritten, herase]
    rfl
  · obtain ⟨hmasked, -, -, hwide⟩ := hiff.mp hcursor
    have hbefore : v.line.textBefore ≠ [] := by
      intro hempty
      rw [hempty] at hwide
      change v.width ≤ promptWidth v.prompt + 0 at hwide
      rw [usedWidth] at hroom
      omega
    obtain ⟨hstart, hless⟩ := window_of_cursorWidth_ge h hmasked hbefore hcursor
    have hwritten : promptWidth v.prompt + v.window.width + v.hintPart.width < v.width := by
      rw [usedWidth] at hfits
      omega
    exact ⟨hstart, by rw [hrow hmultiline, if_pos hwritten]⟩

/-- **Hints in a drawing.** If the cursor stands between two clusters, a hint is asked for where the
line is drawn and columns are left, and it is released where one was given; a refresh asks for one
hint at most, and releases one exactly if it was given one. Where none is given, the drawing is the
one without hints. Where one is given, the most of its clusters are drawn that fit, behind a line
that is shown as a whole, unless the text before the cursor counts more columns than the line. -/
theorem hint_stays_in_row {v : LineView} (h : v.line.OnBoundary) (state : DrawState)
    (mode : RefreshMode) :
    ((v.draw state mode).hintAsked = true ↔
      mode.writes = true ∧ v.hinter.isSome = true ∧ v.usedWidth < v.width) ∧
    ((v.draw state mode).hintReleased = true ↔
      (v.draw state mode).hintAsked = true ∧ v.hint?.isSome = true) ∧
    (∀ (s : Session) (hints : Bool), s.view hints = v → s.drawState = state →
      (s.refreshWith mode hints).hintsAsked ≤ s.hintsAsked + 1 ∧
        (s.refreshWith mode hints).hintsReleased =
          s.hintsReleased + if (v.draw state mode).hintReleased then 1 else 0) ∧
    ((v.draw state mode).hintReleased = false →
      (v.draw state mode).text = (v.withoutHints.draw state mode).text) ∧
    ((v.draw state mode).hintReleased = true →
      ∃ hint n, v.hint? = some hint ∧ v.DrawnWithHint state mode hint n) := by
  refine ⟨?_, ?_, ?_, text_draw_of_not_released, exists_drawnWithHint h⟩
  · rw [hintAsked_draw, Bool.and_eq_true, asked_hintPart_iff]
  · rw [hintReleased_draw, hintAsked_draw, Bool.and_eq_true, Bool.and_eq_true, given_hintPart_iff,
      and_assoc]
  · rintro s hints rfl rfl
    refine ⟨Nat.add_le_add_left (Bool.toNat_le _) _, ?_⟩
    change s.hintsReleased + Bool.toNat _ = _
    cases ((s.view hints).draw s.drawState mode).hintReleased <;> rfl

/-- A line with three columns left, and a hint of which a letter and one of two wide characters fill
them. -/
def filledView : LineView where
  prompt := ['>', ' ']
  line := ⟨['g'], ['é'], 80⟩
  columns := 7
  multiline := false
  masked := false
  hinter := some fun _ => some ⟨['c', '中', '中'], some 35, true⟩

theorem hint_stays_in_row_filledView :
    filledView.line.OnBoundary ∧ (filledView.draw .initial .all).hintReleased = true ∧
      ∃ hint, filledView.hint? = some hint ∧
        IsGreatest {n | n ≤ (clusters hint.text).length ∧
          filledView.widthWith hint n ≤ filledView.width} 2 ∧
        filledView.window = filledView.wholeWindow ∧
        (filledView.draw .initial .all).text = '\r' :: ['>', ' '] ++ ['g', 'é'] ++
          hint.start 2 ++ '\r' :: forwardBy 3 := by
  have hborder : filledView.line.OnBoundary := by decide +kernel
  have hreleased : (filledView.draw .initial .all).hintReleased = true := by decide +kernel
  obtain ⟨hint, n, hhint, drawn⟩ := (hint_stays_in_row hborder .initial .all).2.2.2.2 hreleased
  obtain rfl : ⟨['c', '中', '中'], some 35, true⟩ = hint := Option.some.inj hhint
  obtain ⟨hle, hfits⟩ := drawn.isGreatest.1
  have htwo := drawn.isGreatest.2
    (show 2 ∈ {n | n ≤ _ ∧ _ ≤ filledView.width} from ⟨by decide +kernel, by decide +kernel⟩)
  obtain rfl : n = 2 := by
    refine Nat.le_antisymm (Nat.le_of_lt_succ (Nat.lt_of_le_of_ne (Nat.le_trans hle ?_) ?_)) htwo
    · decide +kernel
    · rintro rfl
      exact absurd hfits (by decide +kernel)
  obtain ⟨hwindow, htext⟩ := drawn.whole rfl (by decide +kernel)
  refine ⟨hborder, hreleased, _, hhint, drawn.isGreatest, hwindow, ?_⟩
  rw [htext, if_pos (by decide +kernel), List.append_nil]
  decide +kernel

/-- Two line ends before the cursor in mask mode, and a letter behind it that is not ASCII. -/
def endedView : LineView where
  prompt := ['>', ' ']
  line := ⟨['\n', '\r', '\n', '\r'], ['é'], 4095⟩
  columns := 6
  multiline := false
  masked := true
  hinter := some fun _ => some ⟨['h'], none, false⟩

/-- The start of a line may be left out in front of a hint. -/
theorem exists_trimmed_before_hint : ¬∀ (v : LineView) (state : DrawState) (mode : RefreshMode),
    v.line.OnBoundary → v.multiline = false → (v.draw state mode).hintReleased = true →
      v.window = v.wholeWindow := by
  intro h
  exact absurd (h endedView .initial .all (by decide +kernel) rfl (by decide +kernel))
    (by decide +kernel)

end LineView

end Typeline
