import Typeline.Proofs.Terminal.Replay

/-!
# Blocks of rows on a screen

What is printed from the start of a row on is a block: the text cut into rows of the width of the
screen. Above a block a screen may show anything. So what printing and erasing do to a screen is
said in two halves, divided by a row: from that row on it is known what every cell shows, and above
it every cell shows what it showed before.

Erasing goes upwards, row after row, and ends in the first row of the screen if there are not as
many rows above as it is sent over.

## Main definitions

* `blockCell` : what a text shows that is cut into rows.
* `Screen.SameAbove` : two screens show the same above a row.
* `Screen.BlankFrom` : from a row on nothing is drawn.
* `Screen.Vacant` : nothing is drawn from the cursor on, which stands at the start of its row.
* `Screen.HoldsBlock` : from a row on a text is shown as a block, and nothing else.

## Main results

* `Screen.holdsBlock_putAll`, `Screen.holdsBlock_overwrite` : printing a block.
* `Screen.shows_eraseUp` : erasing row after row.
-/

namespace Typeline

/-- What a text shows that is cut into rows of some columns, from the row `top` on. -/
def blockCell (columns top : Nat) (t : Text) (row column : Nat) : Cell :=
  if row < top then .blank
  else ((t.map fun c => Cell.glyph [c])[(row - top) * columns + column]?).getD .blank

theorem blockCell_of_top_le {top row : Nat} (htop : top ≤ row) (columns column : Nat) (t : Text) :
    blockCell columns top t row column =
      ((t.map fun c => Cell.glyph [c])[(row - top) * columns + column]?).getD .blank :=
  if_neg (Nat.not_lt_of_le htop)

theorem blockCell_of_le {columns top row column : Nat} {t : Text}
    (h : t.length ≤ (row - top) * columns + column) :
    blockCell columns top t row column = .blank := by
  rw [blockCell]
  split
  · rfl
  · rw [List.getElem?_eq_none (by rwa [List.length_map])]
    rfl

theorem blockCell_of_length_le {columns top row column : Nat} {t : Text}
    (h : t.length ≤ (row - top) * columns) : blockCell columns top t row column = .blank :=
  blockCell_of_le (Nat.le_trans h (Nat.le_add_right _ _))

theorem blockCell_ne_blank {columns top row column : Nat} {t : Text} (htop : top ≤ row)
    (h : (row - top) * columns + column < t.length) :
    blockCell columns top t row column ≠ .blank := by
  rw [blockCell_of_top_le htop, List.getElem?_eq_getElem (by rwa [List.length_map]),
    List.getElem_map]
  exact Cell.noConfusion

/-- A block that starts further down is the same block. -/
theorem blockCell_add (columns top n : Nat) (t : Text) (row column : Nat) :
    blockCell columns (top + n) t (row + n) column = blockCell columns top t row column := by
  rw [blockCell, blockCell, Nat.add_sub_add_right]
  simp only [Nat.add_lt_add_iff_right]

namespace Screen

/-! ### Two halves of a screen -/

/-- Two screens show the same above a row. -/
def SameAbove (s s' : Screen) (top : Nat) : Prop :=
  ∀ row column, row < top → s'.cell row column = s.cell row column

namespace SameAbove

variable {s s' s'' : Screen} {top low : Nat}

theorem refl (s : Screen) (top : Nat) : s.SameAbove s top := fun _ _ _ => rfl

theorem trans (h : s.SameAbove s' top) (h' : s'.SameAbove s'' top) : s.SameAbove s'' top :=
  fun row column hrow => (h' row column hrow).trans (h row column hrow)

theorem mono (h : s.SameAbove s' top) (hle : low ≤ top) : s.SameAbove s' low :=
  fun row column hrow => h row column (Nat.lt_of_lt_of_le hrow hle)

/-- Behind the last column there is nothing to compare. -/
theorem of_columns (hs : s.WellFormed) (hs' : s'.WellFormed) (hcolumns : s'.columns = s.columns)
    (h : ∀ row column, row < top → column < s.columns → s'.cell row column = s.cell row column) :
    s.SameAbove s' top := by
  intro row column hrow
  by_cases hcolumn : column < s.columns
  · exact h row column hrow hcolumn
  · rw [hs.cell_of_columns_le row (by omega), hs'.cell_of_columns_le row (by omega)]

end SameAbove

/-- From a row on nothing is drawn. -/
def BlankFrom (s : Screen) (top : Nat) : Prop :=
  ∀ row column, top ≤ row → s.cell row column = .blank

theorem BlankFrom.mono {s : Screen} {top low : Nat} (h : s.BlankFrom top) (hle : top ≤ low) :
    s.BlankFrom low :=
  fun row column hrow => h row column (Nat.le_trans hle hrow)

/-- Below the row of the cursor nothing is drawn in cells to which a text does not get that is
printed from the start of that row on. -/
def BlankBehind (s : Screen) (t : Text) : Prop :=
  ∀ row column, s.row < row → column < s.columns →
    t.length ≤ (row - s.row) * s.columns + column → s.cell row column = .blank

theorem BlankFrom.blankBehind {s : Screen} (h : s.BlankFrom (s.row + 1)) {t : Text} :
    s.BlankBehind t :=
  fun row column hrow _ _ => h row column hrow

/-- From a row on a text is shown as a block, and nothing else. -/
def HoldsBlock (s : Screen) (top : Nat) (t : Text) : Prop :=
  ∀ row column, top ≤ row → column < s.columns →
    s.cell row column = blockCell s.columns top t row column

theorem HoldsBlock.blankFrom {s : Screen} {top low : Nat} {t : Text} (h : s.HoldsBlock top t)
    (hs : s.WellFormed) (htop : top ≤ low) (hlow : t.length ≤ (low - top) * s.columns) :
    s.BlankFrom low := by
  intro row column hrow
  by_cases hcolumn : column < s.columns
  · rw [h row column (by omega) hcolumn]
    exact blockCell_of_length_le (Nat.le_trans hlow (Nat.mul_le_mul_right _ (by omega)))
  · exact hs.cell_of_columns_le row (by omega)

/-- Nothing is drawn from the row of the cursor on, and the cursor stands at its start. -/
structure Vacant (s : Screen) : Prop where
  wellFormed : s.WellFormed
  blankFrom : s.BlankFrom s.row
  column_eq : s.column = 0
  wrapPending_eq : s.wrapPending = false
  afterJoiner_eq : s.afterJoiner = false

theorem Fresh.vacant {s : Screen} (h : s.Fresh) : s.Vacant :=
  ⟨h.wellFormed, fun row column _ => h.cell_eq row column, h.column_eq, h.wrapPending_eq,
    h.afterJoiner_eq⟩

/-- A move does not touch what is drawn. -/
theorem sameAbove_moveTo (s : Screen) (row column top : Nat) :
    s.SameAbove (s.moveTo row column) top :=
  fun r c _ => s.cell_moveTo row column r c

theorem BlankBehind.moveTo {s : Screen} {t : Text} (h : s.BlankBehind t) (column : Nat) :
    (s.moveTo s.row column).BlankBehind t :=
  fun r c hr hc hle => (s.cell_moveTo s.row column r c).trans (h r c hr hc hle)

theorem BlankFrom.moveTo {s : Screen} {top : Nat} (h : s.BlankFrom top) (row column : Nat) :
    (s.moveTo row column).BlankFrom top :=
  fun r c hr => (s.cell_moveTo row column r c).trans (h r c hr)

theorem HoldsBlock.moveTo {s : Screen} {top : Nat} {t : Text} (h : s.HoldsBlock top t)
    (row column : Nat) : (s.moveTo row column).HoldsBlock top t :=
  fun r c hr hc => (s.cell_moveTo row column r c).trans (h r c hr hc)

/-- A cursor that stands at the start of its row may be moved there. -/
theorem Vacant.of_probed {s s' : Screen} (h : s.Vacant)
    (hprobed : s' = s ∨ s' = s.moveTo s.row 0) :
    s'.Vacant ∧ s'.row = s.row ∧ ∀ top, s.SameAbove s' top := by
  rcases hprobed with rfl | rfl
  · exact ⟨h, rfl, .refl _⟩
  · exact ⟨⟨h.wellFormed.moveTo _ _, h.blankFrom.moveTo _ _, Nat.zero_min _, rfl, rfl⟩, rfl,
      s.sameAbove_moveTo _ _⟩

/-! ### Printing a block -/

section Start

variable {s : Screen} (h : s.WellFormed) (hstart : s.column = 0) (hpending : s.wrapPending = false)
  {t : Text} (ht : ∀ c ∈ t, charWidth c = 1)

include h hstart hpending ht

/-- Characters that are printed from the start of a row on fill cells from there on. -/
theorem cell_putAll_of_start {row column : Nat} (hcolumn : column < s.columns) :
    (s.putAll t).cell row column =
      if row < s.row then s.cell row column
      else ((t.map fun c => Cell.glyph [c])[(row - s.row) * s.columns + column]?).getD
        (s.cell row column) := by
  rw [cell_putAll h ht hcolumn, place_of_not_pending hpending, hstart, cellsOf_narrow ht,
    Nat.add_zero]
  by_cases hrow : row < s.row
  · have hend : (row + 1) * s.columns ≤ s.row * s.columns := Nat.mul_le_mul_right _ hrow
    rw [Nat.succ_mul] at hend
    rw [if_neg (by omega), if_pos hrow]
  · have hbelow : s.row * s.columns ≤ row * s.columns :=
      Nat.mul_le_mul_right _ (Nat.le_of_not_lt hrow)
    rw [if_pos (by omega), if_neg hrow, Nat.sub_mul,
      show row * s.columns + column - s.row * s.columns =
        row * s.columns - s.row * s.columns + column by omega]

theorem row_putAll_of_start : (s.putAll t).row = s.row + (t.length - 1) / s.columns := by
  by_cases hempty : t = []
  · subst hempty
    simp
  · have hlength := List.length_pos_iff.mpr hempty
    rw [row_putAll h ht hempty, place_of_not_pending hpending, hstart, Nat.add_zero,
      Nat.add_sub_assoc hlength, Nat.mul_comm, Nat.mul_add_div h.columns_pos]

theorem sameAbove_putAll : s.SameAbove (s.putAll t) s.row := by
  refine .of_columns h (h.putAll t) (columns_putAll s t) fun row column hrow hcolumn => ?_
  rw [cell_putAll_of_start h hstart hpending ht hcolumn, if_pos hrow]

/-- **Printing a block.** If nothing is drawn where the text does not get to, it is shown as a
block. -/
theorem holdsBlock_putAll (hblank : ∀ row column, s.row ≤ row → column < s.columns →
    t.length ≤ (row - s.row) * s.columns + column → s.cell row column = .blank) :
    (s.putAll t).HoldsBlock s.row t := by
  intro row column hrow hcolumn
  rw [columns_putAll] at hcolumn ⊢
  rw [cell_putAll_of_start h hstart hpending ht hcolumn, blockCell_of_top_le hrow,
    if_neg (by omega)]
  by_cases hinside : (row - s.row) * s.columns + column < t.length
  · rw [List.getElem?_eq_getElem (by rwa [List.length_map])]
    rfl
  · rw [List.getElem?_eq_none (by rw [List.length_map]; omega),
      hblank row column hrow hcolumn (by omega)]

theorem row_overwrite_of_start : (s.overwrite t).row = s.row + (t.length - 1) / s.columns := by
  have hrow := row_putAll_of_start h hstart hpending ht
  rw [overwrite]
  split <;> exact hrow

theorem sameAbove_overwrite : s.SameAbove (s.overwrite t) s.row := by
  have hsame := sameAbove_putAll h hstart hpending ht
  have hrow := row_putAll_of_start h hstart hpending ht
  rw [overwrite]
  split
  · have hbelow : s.row ≤ (s.putAll t).row := hrow ▸ Nat.le_add_right _ _
    refine hsame.trans fun row column hlt => ?_
    rw [cell_eraseLine (h.putAll t), if_neg (by omega)]
  · exact hsame

/-- **Overwriting a row by a block.** Whatever the row of the cursor showed, the text is shown as a
block, if nothing is drawn below it where the text does not get to. -/
theorem holdsBlock_overwrite (hblank : s.BlankBehind t) : (s.overwrite t).HoldsBlock s.row t := by
  have hlength := length_cellsOf_narrow ht
  by_cases hfits : t.length ≤ s.columns
  · intro row column hrow hcolumn
    have hsame : (s.overwrite t).columns = s.columns := by
      rw [overwrite]
      split <;> exact columns_putAll s t
    rw [hsame] at hcolumn ⊢
    rw [cell_overwrite (fun c hc => Or.inl (ht c hc)) hstart hpending (by omega) h row hcolumn,
      cellsOf_narrow ht]
    rcases Nat.eq_or_lt_of_le hrow with rfl | hlt
    · rw [if_pos rfl, blockCell_of_top_le hrow, Nat.sub_self, Nat.zero_mul, Nat.zero_add]
    · have hone : 1 * s.columns ≤ (row - s.row) * s.columns := Nat.mul_le_mul_right _ (by omega)
      rw [if_neg (by omega), hblank row column hlt hcolumn (by omega),
        blockCell_of_length_le (by omega)]
  · -- A text that is longer than the row leaves no cell of it.
    rw [overwrite, if_neg (by omega)]
    refine holdsBlock_putAll h hstart hpending ht fun row column hrow hcolumn hle => ?_
    refine hblank row column (Nat.lt_of_le_of_ne hrow ?_) hcolumn hle
    rintro rfl
    rw [Nat.sub_self, Nat.zero_mul] at hle
    omega

end Start

section Behind

variable {s : Screen} (h : s.WellFormed) {t : Text} (ht : ∀ c ∈ t, charWidth c = 1) {top : Nat}

include h ht

theorem sameAbove_putAll_of_place (hplace : top * s.columns ≤ s.place) :
    s.SameAbove (s.putAll t) top := by
  refine .of_columns h (h.putAll t) (columns_putAll s t) fun row column hrow hcolumn => ?_
  have hend : (row + 1) * s.columns ≤ top * s.columns := Nat.mul_le_mul_right _ hrow
  rw [Nat.succ_mul] at hend
  rw [cell_putAll h ht hcolumn, if_neg (by omega)]

/-- Characters that are printed behind a block add to it. -/
theorem HoldsBlock.putAll {shown : Text} (hholds : s.HoldsBlock top shown)
    (hplace : s.place = top * s.columns + shown.length) :
    (s.putAll t).HoldsBlock top (shown ++ t) := by
  intro row column hrow hcolumn
  rw [columns_putAll] at hcolumn ⊢
  have hstart : top * s.columns ≤ row * s.columns := Nat.mul_le_mul_right _ hrow
  have hindex : (row - top) * s.columns + column = row * s.columns + column - top * s.columns := by
    rw [Nat.sub_mul]
    omega
  rw [cell_putAll h ht hcolumn, hholds row column hrow hcolumn, hplace, cellsOf_narrow ht,
    blockCell_of_top_le hrow, blockCell_of_top_le hrow, hindex, List.map_append,
    List.getElem?_append, List.length_map]
  by_cases hbehind : top * s.columns + shown.length ≤ row * s.columns + column
  · rw [if_pos hbehind, if_neg (by omega), List.getElem?_eq_none (l := shown.map _)
      (by rw [List.length_map]; omega),
      show row * s.columns + column - (top * s.columns + shown.length) =
        row * s.columns + column - top * s.columns - shown.length by omega]
    rfl
  · rw [if_neg hbehind, if_pos (by omega)]

end Behind

/-- On a screen on which nothing is drawn, a text that is printed is a block and all that is
shown. -/
theorem Fresh.cell_putAll {s : Screen} (h : s.Fresh) {t : Text} (ht : ∀ c ∈ t, charWidth c = 1)
    {row column : Nat} (hcolumn : column < s.columns) :
    (s.putAll t).cell row column = blockCell s.columns s.row t row column := by
  rw [cell_putAll_of_start h.wellFormed h.column_eq h.wrapPending_eq ht hcolumn, h.cell_eq]
  rfl

theorem Fresh.row_putAll {s : Screen} (h : s.Fresh) {t : Text} (ht : ∀ c ∈ t, charWidth c = 1) :
    (s.putAll t).row = s.row + (t.length - 1) / s.columns :=
  row_putAll_of_start h.wellFormed h.column_eq h.wrapPending_eq ht

/-! ### Erasing rows -/

theorem BlankFrom.clearRow {s : Screen} (h : s.BlankFrom (s.row + 1)) (hs : s.WellFormed) :
    s.clearRow.BlankFrom s.row := by
  intro row column hrow
  rw [cell_clearRow hs]
  split
  · rfl
  · exact h row column (by omega)

theorem sameAbove_clearRow {s : Screen} (hs : s.WellFormed) : s.SameAbove s.clearRow s.row := by
  intro row column hrow
  rw [cell_clearRow hs, if_neg (by omega)]

/-- Erasing the row of the cursor makes room from there on, if there is room below. -/
theorem vacant_clearRow {s : Screen} (hs : s.WellFormed) (hblank : s.BlankFrom (s.row + 1)) :
    s.clearRow.Vacant :=
  ⟨hs.clearRow, hblank.clearRow hs, s.clearRow_column, rfl, rfl⟩

/-- **Erasing row after row upwards**, the last row that is reached excepted. -/
theorem shows_eraseUp {s : Screen} (hs : s.WellFormed) (hblank : s.BlankFrom (s.row + 1))
    (count : Nat) : ∃ s', s.Shows (List.replicate count
        ('\r' :: eraseToEnd ++ (ControlSequence.cursorUp 1).text)).flatten s' ∧
      s'.WellFormed ∧ s'.row = s.row - count ∧ s'.BlankFrom (s'.row + 1) ∧
      s.SameAbove s' s'.row := by
  induction count generalizing s with
  | zero => exact ⟨s, .nil s, hs, rfl, hblank, .refl s _⟩
  | succ count ih =>
    have hup := s.shows_clearRow.append (s.clearRow.shows_cursorUp Nat.one_pos (by decide))
    have hcleared := hblank.clearRow hs
    obtain ⟨s', hshows, hs', hrow, hblank', hsame⟩ := ih (hs.clearRow.moveTo _ _)
      ((hcleared.mono (by rw [moveTo_row, clearRow_row]; omega)).moveTo (s.clearRow.row - 1)
        s.clearRow.column)
    rw [moveTo_row, clearRow_row] at hrow
    refine ⟨s', ?_, hs', by omega, hblank', ?_⟩
    · rw [List.replicate_succ, List.flatten_cons]
      exact hup.append hshows
    · refine (((sameAbove_clearRow hs).mono (by omega)).trans ?_).trans hsame
      exact s.clearRow.sameAbove_moveTo _ _ _

end Screen

end Typeline
