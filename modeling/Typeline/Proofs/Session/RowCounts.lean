import Typeline.Proofs.Edit.ByteOffsets
import Typeline.Proofs.Session.HintRow
import Typeline.Proofs.Session.Range
import Typeline.Proofs.Terminal.PlainColumns

/-!
# Counting rows in 64 bits

A drawing over several rows adds up columns and divides them into rows. Here it does so with numbers
of 64 bits: a sum that is too large and a difference that is negative have the outcome `none`, and
the hint is cut at a byte offset that is added up on the way. There is one sum that may be too
large. To find the row of the cursor, the columns up to it are added to those of a whole row, and so
a terminal can be too wide. All other sums are at most as large as that one or as the number of
bytes of a hint, or of a prompt and a line; and no text has more bytes than half of what can be
counted.

The row of the cursor is counted from one. It is at most one row below those of the line, unless
there are more columns up to the cursor than in the whole line. Between two clusters that is due to
how clusters are counted in mask mode: a line end counts as two in a text of ASCII characters and as
one in any other.

## Main definitions

* `add?`, `quotientUp?` : sums and quotients of 64 bits.
* `LineView.drawRows?`, `LineView.drawAll?` : drawing with them, once and several times.
* `LineView.Storable` : texts that can be stored and columns that can be counted.

## Main results

* `LineView.drawRows?_eq` : one drawing in any mode.
* `LineView.blockRows_lt_cursorRow_iff` : when the cursor is counted in a row further below.
* `LineView.counts_rows` : any drawings.
-/

namespace Typeline

/-! ### Sums and quotients that may fail -/

/-- The largest number of bytes that a text may have, which is half of what can be counted. -/
def maxBytes : Nat := 0x7FFFFFFFFFFFFFFF

/-- A sum, which has no outcome if it cannot be counted. -/
def add? (m n : Nat) : Option Nat := if m + n ≤ maxCount then some (m + n) else none

/-- A quotient, rounded up. -/
def quotientUp? (m n : Nat) : Option Nat :=
  if 0 < m % n then add? (m / n) 1 else some (m / n)

theorem add?_of_le {m n : Nat} (h : m + n ≤ maxCount) : add? m n = some (m + n) := if_pos h

theorem add?_of_lt {m n : Nat} (h : maxCount < m + n) : add? m n = none :=
  if_neg (Nat.not_le_of_lt h)

theorem quotientUp?_eq {m n : Nat} (hn : 0 < n) (hm : m ≤ maxCount) :
    quotientUp? m n = some (LineView.rowsOf m n) := by
  rw [quotientUp?, rowsOf_eq hn]
  split
  · next hrest =>
    have hpos : m ≠ 0 := by
      rintro rfl
      exact absurd hrest (by rw [Nat.zero_mod]; exact Nat.lt_irrefl 0)
    have hone : n ≠ 1 := by
      rintro rfl
      exact absurd hrest (by rw [Nat.mod_one]; exact Nat.lt_irrefl 0)
    have hless := Nat.div_lt_self (Nat.pos_of_ne_zero hpos) (show 1 < n by omega)
    rw [if_neg hpos, div_pred_of_mod_ne_zero hn (Nat.pos_iff_ne_zero.mp hrest)]
    exact add?_of_le (by omega)
  · next hnone =>
    have hzero : m % n = 0 := Nat.eq_zero_of_not_pos hnone
    by_cases hpos : m = 0
    · rw [if_pos hpos, hpos, Nat.zero_div]
    · rw [if_neg hpos, div_pred_of_mod_eq_zero hn (Nat.pos_of_ne_zero hpos) hzero]

/-! ### Drawing with such numbers -/

/-- Count the clusters of a hint that fit, with their columns and their bytes added up. -/
def fitted? (available : Nat) : (width bytes : Nat) → List Text → Option (Nat × Nat)
  | width, bytes, [] => some (width, bytes)
  | width, bytes, cluster :: rest => do
    let wider ← add? width (clusterWidth cluster)
    if available < wider then some (width, bytes)
    else fitted? available wider (← add? bytes (byteLength cluster)) rest

theorem fitted?_eq {available width bytes : Nat} {parts : List Text} (hle : width ≤ bytes)
    (hfits : width ≤ available) (hmax : bytes + byteLength parts.flatten ≤ maxCount) :
    fitted? available width bytes parts =
      some (width + (fitClusters (available - width) parts).2,
        bytes + byteLength (fitClusters (available - width) parts).1) := by
  induction parts generalizing width bytes with
  | nil => rfl
  | cons cluster rest ih =>
    have hbytes := clusterWidth_le_byteLength cluster
    rw [List.flatten_cons, byteLength_append] at hmax
    rw [fitted?, fitClusters, add?_of_le (by omega), Option.bind_eq_bind, Option.bind_some]
    by_cases hroom : clusterWidth cluster ≤ available - width
    · rw [if_neg (by omega), if_pos hroom, add?_of_le (by omega), Option.bind_some,
        ih (by omega) (by omega) (by omega), byteLength_append, Nat.sub_add_eq, Nat.add_assoc,
        Nat.add_assoc]
    · rw [if_pos (by omega), if_neg hroom]
      rfl

namespace LineView

/-- The hint behind the line. -/
def hintPart? (v : LineView) : Option HintPart :=
  match v.hinter with
  | none => some .none
  | some hinter => do
    let used ← add? (promptWidth v.prompt) (contentWidth v.masked v.line.text)
    if v.width ≤ used then some .none
    else match hinter v.line.text with
      | none => some ⟨[], 0, true, false⟩
      | some hint => do
        let (width, bytes) ← fitted? (← sub? v.width used) 0 0 (clusters hint.text)
        let (t, _) ← cut? hint.text bytes
        match hint.style with
        | some (before, after) => some ⟨before ++ t ++ after, width, true, true⟩
        | none => some ⟨t, width, true, true⟩

/-- Move the cursor between a row and the last one, if it is above that. -/
def moveRows? (move : Nat → ControlSequence) (last row : Nat) : Option Text :=
  if row < last then (sub? last row).map fun n => (move n).text else some []

/-- Erase the rows of the last drawing but the first one. -/
def eraseRows? (state : DrawState) : Option Text := do
  let down ← moveRows? .cursorDown state.rows state.cursorRow
  return down ++ (List.replicate (state.rows - 1)
    ('\r' :: eraseToEnd ++ (ControlSequence.cursorUp 1).text)).flatten

/-- Erase what the mode says. -/
def erased? (state : DrawState) (mode : RefreshMode) : Option Text := do
  return (← if mode.cleans then eraseRows? state else some []) ++ '\r' :: eraseToEnd

section

variable (v : LineView)

/-- The columns of the prompt and the line up to the cursor. -/
def cursorWidth? : Option Nat :=
  add? (promptWidth v.prompt) (contentWidth v.masked v.line.textBefore)

/-- The row of the cursor. -/
def cursorRow? : Option Nat := do return (← add? (← v.cursorWidth?) v.width) / v.width

/-- Whether the line is sent on to a new row. -/
def wraps? : Option Bool :=
  if !v.line.before.isEmpty && v.line.atEnd then do
    return (← add? (contentWidth v.masked v.line.textBefore) (promptWidth v.prompt)) % v.width == 0
  else some false

/-- The number of rows, with one more if the line is sent on. -/
def blockRows? (rows : Nat) (wraps : Bool) : Option Nat :=
  if wraps then add? rows 1 else some rows

/-- Draw over several rows. -/
def drawRows? (state : DrawState) (mode : RefreshMode) : Option Drawing := do
  let used ← add? (promptWidth v.prompt) (contentWidth v.masked v.line.text)
  let rows ← quotientUp? used v.width
  let erased ← erased? state mode
  if mode.writes then
    let hint ← v.hintPart?
    let wraps ← v.wraps?
    let allRows ← blockRows? rows wraps
    let cursorRow ← v.cursorRow?
    let up ← moveRows? .cursorUp allRows cursorRow
    let column := (← v.cursorWidth?) % v.width
    return {
      text := erased ++ v.prompt ++ content v.masked v.line.text ++ hint.text
        ++ (if wraps then ['\n', '\r'] else []) ++ up ++ '\r' :: forwardBy column
      state := ⟨allRows, cursorRow, v.line.cursor⟩
      hintAsked := hint.asked
      hintReleased := hint.given
      inRange := true }
  else
    return {
      text := erased
      state := ⟨rows, state.cursorRow, v.line.cursor⟩
      hintAsked := false
      hintReleased := false
      inRange := true }

end

/-! ### What these drawings come to -/

section

variable {v : LineView}

private theorem fitClusters_isPrefix (room : Nat) (t : Text) :
    ∃ rest, t = (fitClusters room (clusters t)).1 ++ rest := by
  obtain ⟨n, hfit, -⟩ := fitClusters_eq room (clusters t)
  refine ⟨((clusters t).drop n).flatten, ?_⟩
  rw [hfit, ← List.flatten_append, List.take_append_drop, flatten_clusters]

theorem hintPart?_eq (hused : v.usedWidth ≤ maxCount)
    (hhint : ∀ hint, v.hint? = some hint → byteLength hint.text ≤ maxCount) :
    v.hintPart? = some v.hintPart := by
  rw [hintPart?, hintPart]
  cases hhinter : v.hinter with
  | none => rfl
  | some hinter =>
    have hcount : add? (promptWidth v.prompt) (contentWidth v.masked v.line.text) =
        some v.usedWidth := add?_of_le hused
    dsimp only
    rw [hcount, Option.bind_eq_bind, Option.bind_some]
    by_cases hroom : v.width ≤ v.usedWidth
    · rw [if_pos hroom, if_pos hroom]
    · rw [if_neg hroom, if_neg hroom]
      cases hanswer : hinter v.line.text with
      | none => rfl
      | some hint =>
        have hbytes := hhint hint (by rw [hint?, hhinter, Option.bind_some, hanswer])
        have hfitted : fitted? (v.width - v.usedWidth) 0 0 (clusters hint.text) = _ :=
          fitted?_eq (Nat.le_refl 0) (Nat.zero_le _) (by rwa [flatten_clusters, Nat.zero_add])
        rw [Nat.zero_add, Nat.zero_add, Nat.sub_zero] at hfitted
        obtain ⟨rest, hrest⟩ := fitClusters_isPrefix (v.width - v.usedWidth) hint.text
        dsimp only
        generalize fitClusters (v.width - v.usedWidth) (clusters hint.text) = fit at hfitted hrest ⊢
        rw [sub?_of_le (Nat.le_of_not_le hroom), Option.bind_some, hfitted]
        have hcut : cut? hint.text (byteLength fit.1) = some (fit.1, rest) := by
          rw [hrest, cut?_append]
        simp only [Option.bind_eq_bind, Option.bind_some, hcut]
        cases hint.style <;> rfl

theorem moveRows?_eq (move : Nat → ControlSequence) (last row : Nat) :
    moveRows? move last row = some (if row < last then (move (last - row)).text else []) := by
  rw [moveRows?]
  split
  · next hbelow =>
    rw [sub?_of_le (Nat.le_of_lt hbelow)]
    rfl
  · rfl

theorem erased?_eq (state : DrawState) (mode : RefreshMode) :
    erased? state mode = some (erased state mode) := by
  rw [erased?, eraseRows?, moveRows?_eq, erased]
  cases mode.cleans <;> rfl

/-- The columns up to the cursor and those of a row are counted before they are divided. -/
theorem cursorRow?_eq : v.cursorRow? =
    if v.cursorWidth + v.width ≤ maxCount then some v.cursorRow else none := by
  rw [cursorRow?, cursorWidth?]
  by_cases hmax : v.cursorWidth ≤ maxCount
  · rw [add?_of_le hmax]
    change (add? v.cursorWidth v.width).bind _ = _
    by_cases hrow : v.cursorWidth + v.width ≤ maxCount
    · rw [add?_of_le hrow, if_pos hrow]
      rfl
    · rw [add?_of_lt (Nat.lt_of_not_le hrow), if_neg hrow]
      rfl
  · have hrow : ¬v.cursorWidth + v.width ≤ maxCount := by omega
    rw [add?_of_lt (Nat.lt_of_not_le hmax), if_neg hrow]
    rfl

theorem wraps?_eq (hmax : v.cursorWidth ≤ maxCount) : v.wraps? = some v.wraps := by
  have hcount : add? (contentWidth v.masked v.line.textBefore) (promptWidth v.prompt) =
      some v.cursorWidth := by
    rw [add?_of_le (by rwa [Nat.add_comm]), Nat.add_comm]
    rfl
  rw [wraps?, wraps, hcount]
  cases !v.line.before.isEmpty && v.line.atEnd <;> rfl

/-- A line that is sent on to a new row ends with the cursor, and so the row is counted if that of
the cursor is. -/
theorem rowsOf_lt_of_wraps (hwraps : v.wraps = true) (hrow : v.cursorWidth + v.width ≤ maxCount) :
    rowsOf v.usedWidth v.width + 1 ≤ maxCount := by
  rw [wraps, Bool.and_eq_true, Bool.and_eq_true, Line.atEnd, List.isEmpty_iff] at hwraps
  have hsame : v.cursorWidth = v.usedWidth := by
    rw [cursorWidth, usedWidth, Line.text, hwraps.1.2, List.append_nil, Line.textBefore]
  have hrows := rowsOf_le v.width_pos v.usedWidth
  have hwidth := v.width_pos
  omega

/-- **Drawing with numbers of 64 bits.** There is an outcome if and only if all numbers of columns
stay in range, and then it is the drawing. -/
theorem drawRows?_eq (hhint : ∀ hint, v.hint? = some hint → byteLength hint.text ≤ maxCount)
    (state : DrawState) (mode : RefreshMode) : v.drawRows? state mode =
      if (v.drawRows state mode).inRange then some (v.drawRows state mode) else none := by
  by_cases hused : v.usedWidth ≤ maxCount
  · have hcount : add? (promptWidth v.prompt) (contentWidth v.masked v.line.text) =
        some v.usedWidth := add?_of_le hused
    simp only [drawRows?, hcount, quotientUp?_eq v.width_pos hused, erased?_eq,
      Option.bind_eq_bind, Option.bind_some]
    by_cases hwrites : mode.writes = true
    · simp only [if_pos hwrites, hintPart?_eq hused hhint, cursorRow?_eq, moveRows?_eq,
        Option.bind_some]
      by_cases hrow : v.cursorWidth + v.width ≤ maxCount
      · have hmax : v.cursorWidth ≤ maxCount := Nat.le_of_add_right_le hrow
        have hcursor : v.cursorWidth? = some v.cursorWidth := add?_of_le hmax
        have hrows : blockRows? (rowsOf v.usedWidth v.width) v.wraps = some v.blockRows := by
          rw [blockRows?, blockRows]
          split
          · next hwraps => exact add?_of_le (rowsOf_lt_of_wraps hwraps hrow)
          · rfl
        simp only [wraps?_eq hmax, hrows, if_pos hrow, hcursor, Option.bind_some]
        rw [drawRows, if_pos hwrites, decide_eq_true hused, decide_eq_true hrow]
        rfl
      · simp only [if_neg hrow, Option.bind_none, Option.bind_fun_none]
        rw [drawRows, if_pos hwrites, decide_eq_false hrow, Bool.and_false]
        rfl
    · simp only [drawRows, if_neg hwrites, decide_eq_true hused, if_true]
      rfl
  · have hcount : add? (promptWidth v.prompt) (contentWidth v.masked v.line.text) = none :=
      add?_of_lt (Nat.lt_of_not_le hused)
    simp only [drawRows?, hcount, drawRows, decide_eq_false hused, Bool.false_and]
    split <;> rfl

/-! ### Drawings one after the other -/

/-- What a drawing shows can be stored: no text is longer than `maxBytes`, and the columns of the
terminal can be counted. -/
structure Storable (v : LineView) : Prop where
  prompt : byteLength v.prompt ≤ maxBytes
  line : byteLength v.line.text ≤ maxBytes
  hint : ∀ hint, v.hint? = some hint → byteLength hint.text ≤ maxBytes
  columns : v.columns ≤ maxCount

theorem Storable.of_hinter_eq_none (hhinter : v.hinter = none)
    (prompt : byteLength v.prompt ≤ maxBytes) (line : byteLength v.line.text ≤ maxBytes)
    (columns : v.columns ≤ maxCount) : v.Storable where
  prompt := prompt
  line := line
  hint hint hsome := by
    rw [hint?, hhinter] at hsome
    exact absurd hsome (Option.not_mem_none hint)
  columns := columns

/-- The columns of what can be stored can be counted. -/
theorem Storable.usedWidth_le (h : v.Storable) : v.usedWidth ≤ maxCount :=
  calc
    v.usedWidth ≤ byteLength v.prompt + byteLength v.line.text :=
      Nat.add_le_add (promptWidth_le_byteLength _) (contentWidth_le_byteLength _ _)
    _ ≤ maxBytes + maxBytes := Nat.add_le_add h.prompt h.line
    _ ≤ maxCount := by decide

/-- What can be stored is drawn if the columns up to the cursor can be counted with those of a row
added to them. -/
theorem Storable.drawRows?_all (h : v.Storable) (state : DrawState) :
    v.drawRows? state .all =
      if v.cursorWidth + v.width ≤ maxCount then some (v.drawRows state .all) else none := by
  have hhint (hint : Hint) (hsome : v.hint? = some hint) : byteLength hint.text ≤ maxCount :=
    Nat.le_trans (h.hint hint hsome) (by decide)
  have hrange : (v.drawRows state .all).inRange =
      (decide (v.usedWidth ≤ maxCount) && decide (v.cursorWidth + v.width ≤ maxCount)) := rfl
  rw [drawRows?_eq hhint, hrange, decide_eq_true h.usedWidth_le, Bool.true_and]
  simp only [decide_eq_true_eq]

end

/-- Draw several lines, each in the place of the one before, and tell what is remembered then. -/
def drawAll? (state : DrawState) (views : List LineView) : Option DrawState :=
  views.foldlM (fun state v => (v.drawRows? state .all).map Drawing.state) state

/-- **Any drawings.** They have an outcome if and only if the columns up to each cursor can be
counted with those of a row. -/
theorem drawAll?_eq {views : List LineView} (h : ∀ v ∈ views, v.Storable) (state : DrawState) :
    drawAll? state views = if ∀ v ∈ views, v.cursorWidth + v.width ≤ maxCount then
      some (views.foldl (fun state v => (v.drawRows state .all).state) state) else none := by
  induction views generalizing state with
  | nil => rfl
  | cons v views ih =>
    have hviews := fun u hu => h u (List.mem_cons_of_mem _ hu)
    rw [drawAll?, List.foldlM_cons, (h v List.mem_cons_self).drawRows?_all]
    by_cases hrow : v.cursorWidth + v.width ≤ maxCount
    · simp only [List.forall_mem_cons, hrow, true_and]
      exact ih hviews _
    · simp only [List.forall_mem_cons, hrow, false_and, if_false]
      rfl

section

variable {v : LineView}

/-- A cursor behind no more columns than are used is at most one row below the rows. -/
theorem cursorRow_le_of_cursorWidth_le (h : v.cursorWidth ≤ v.usedWidth) :
    v.cursorRow ≤ v.blockRows + 1 := by
  have hrows : rowsOf v.usedWidth v.width ≤ v.blockRows := by
    rw [blockRows]
    split <;> omega
  have hcursor : v.cursorWidth / v.width ≤ rowsOf v.usedWidth v.width :=
    Nat.div_le_div_right (Nat.le_sub_one_of_lt (Nat.lt_of_le_of_lt h
      (Nat.lt_add_of_pos_right v.width_pos)))
  rw [cursorRow_eq]
  omega

/-- **The row of the cursor.** If the cursor stands between two clusters, it is more than one row
below the rows only by line ends that count twice before it and once in the whole line. -/
theorem blockRows_lt_cursorRow_iff (h : v.line.OnBoundary) : v.blockRows + 1 < v.cursorRow ↔
    v.masked = true ∧ isAscii v.line.textBefore = true ∧ isAscii v.line.text = false ∧
      v.blockRows < (promptWidth v.prompt +
        ((clusters v.line.textBefore).length + lineEnds v.line.textBefore)) / v.width := by
  have hbelow : v.blockRows + 1 < v.cursorRow ↔ v.blockRows < v.cursorWidth / v.width := by
    rw [cursorRow_eq]
    omega
  rw [hbelow]
  constructor
  · intro hrow
    have hcount : ¬(v.masked = true → isAscii v.line.textBefore = true →
        isAscii v.line.text = true) := fun hcount => by
      have hle := cursorRow_le_of_cursorWidth_le (cursorWidth_le_of_onBoundary h hcount)
      exact absurd (hbelow.mpr hrow) (Nat.not_lt.mpr hle)
    simp only [Classical.not_imp, Bool.not_eq_true] at hcount
    obtain ⟨hmasked, hascii, hother⟩ := hcount
    exact ⟨hmasked, hascii, hother, cursorWidth_of_ascii hmasked hascii ▸ hrow⟩
  · rintro ⟨hmasked, hascii, -, hrow⟩
    exact (cursorWidth_of_ascii hmasked hascii).symm ▸ hrow

end

/-- **Counting rows.** Whatever lines are drawn, one after the other, and however wide the terminal
is each time, no sum and no difference leaves the range of 64 bits, if the columns up to each cursor
may be added to those of a row. The row of the cursor is counted from one, and it is at most one row
below the rows of the line if and only if it is so by the columns up to the cursor; where the cursor
stands between two clusters, that fails only by line ends that count twice. -/
theorem counts_rows {views : List LineView} {v : LineView}
    (h : ∀ u ∈ views ++ [v], u.Storable) :
    ((drawAll? .initial (views ++ [v])).isSome = true ↔
      ∀ u ∈ views ++ [v], u.cursorWidth + u.width ≤ maxCount) ∧
    ∀ d, drawAll? .initial (views ++ [v]) = some d →
      d = ⟨v.blockRows, v.cursorRow, v.line.cursor⟩ ∧ 1 ≤ d.cursorRow ∧
      (d.cursorRow ≤ d.rows + 1 ↔ v.cursorWidth / v.width ≤ v.blockRows) ∧
      (v.line.OnBoundary → (d.rows + 1 < d.cursorRow ↔
        v.masked = true ∧ isAscii v.line.textBefore = true ∧ isAscii v.line.text = false ∧
          v.blockRows < (promptWidth v.prompt +
            ((clusters v.line.textBefore).length + lineEnds v.line.textBefore)) / v.width)) := by
  rw [drawAll?_eq h]
  refine ⟨by rw [Option.isSome_ite], fun d hd => ?_⟩
  obtain rfl : ⟨v.blockRows, v.cursorRow, v.line.cursor⟩ = d := by
    rw [List.foldl_append] at hd
    exact Option.some.inj ((if_pos (Option.ite_none_right_eq_some.mp hd).1).symm.trans hd)
  refine ⟨rfl, v.cursorRow_pos, ?_, blockRows_lt_cursorRow_iff⟩
  change v.cursorRow ≤ v.blockRows + 1 ↔ _
  rw [cursorRow_eq]
  omega

/-- A line over two rows. -/
def foldedView : LineView where
  prompt := ['>', ' ']
  line := ⟨['b', 'a'], ['c'], Line.defaultCapacity⟩
  columns := 4
  multiline := true
  masked := false
  hinter := none

/-- A line on a terminal that is as wide as it may be for it. -/
def widestView : LineView where
  prompt := ['>', ' ']
  line := ⟨['b', 'a'], [], Line.defaultCapacity⟩
  columns := maxCount - 4
  multiline := true
  masked := false
  hinter := none

theorem counts_rows_widestView :
    (∀ u ∈ [foldedView] ++ [widestView], u.Storable) ∧
      widestView.cursorWidth + widestView.width = maxCount ∧
      ∃ d, drawAll? .initial ([foldedView] ++ [widestView]) = some d ∧ d = ⟨1, 1, 2⟩ ∧
        d.cursorRow ≤ d.rows + 1 := by
  have hstorable : ∀ u ∈ [foldedView] ++ [widestView], u.Storable := by
    intro u hu
    rcases List.mem_cons.mp hu with rfl | hu
    · exact .of_hinter_eq_none rfl (by decide) (by decide) (by decide)
    · rw [List.mem_singleton.mp hu]
      exact .of_hinter_eq_none rfl (by decide) (by decide) (by decide)
  have hranges : ∀ u ∈ [foldedView] ++ [widestView], u.cursorWidth + u.width ≤ maxCount := by
    decide +kernel
  obtain ⟨hsome, hcounts⟩ := counts_rows hstorable
  obtain ⟨d, hd⟩ := Option.isSome_iff_exists.mp (hsome.mpr hranges)
  obtain ⟨rfl, -, hrow, -⟩ := hcounts d hd
  exact ⟨hstorable, by decide +kernel, _, hd, by decide +kernel, hrow.mpr (by decide +kernel)⟩

/-- A line on a terminal that is as wide as can be counted. -/
def overflowingView : LineView where
  prompt := ['>', ' ']
  line := .empty Line.defaultCapacity
  columns := maxCount
  multiline := true
  masked := false
  hinter := none

/-- A line that is not ASCII, with two line ends before the cursor. -/
def lineEndsView : LineView where
  prompt := []
  line := ⟨['\n', '\r', '\n', '\r'], ['é'], Line.defaultCapacity⟩
  columns := 1
  multiline := true
  masked := true
  hinter := none

/-- So a drawing of a line within its capacity, on a terminal of a width that may be set, may leave
the range of 64 bits, and where it does not the cursor may be counted in a row further below. -/
theorem exists_not_counted :
    ¬(∀ v : LineView, v.Storable → v.line.OnBoundary → byteLength v.line.text ≤ v.line.capacity →
      (∃ bytes, (TerminalSettings.ofEnvironment none (some bytes) none).fixedColumns =
        some v.columns) → (drawAll? .initial [v]).isSome = true) ∧
    ¬(∀ v : LineView, v.Storable → v.line.OnBoundary → byteLength v.line.text ≤ v.line.capacity →
      (∃ bytes, (TerminalSettings.ofEnvironment none (some bytes) none).fixedColumns =
        some v.columns) → ∀ d, drawAll? .initial [v] = some d → d.cursorRow ≤ d.rows + 1) := by
  constructor
  · intro h
    have hsome := h overflowingView
      (.of_hinter_eq_none rfl (by decide) (by decide) (by decide))
      (by decide +kernel) (by decide) ⟨Utf8.encode (decimal maxCount), by decide +kernel⟩
    exact absurd hsome (by decide +kernel)
  · intro h
    have hle := h lineEndsView
      (.of_hinter_eq_none rfl (by decide) (by decide) (by decide))
      (by decide +kernel) (by decide) ⟨['1'.toUInt8], by decide +kernel⟩ ⟨3, 5, 4⟩
      (by decide +kernel)
    exact absurd hle (by decide)

end LineView

end Typeline
