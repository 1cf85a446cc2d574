import Mathlib.Data.List.Basic
import Typeline.Proofs.Edit.ByteOffsets
import Typeline.Proofs.Terminal.Replay

/-!
# Rows and cells by their indices

The events of a stream may also be carried out on a grid cell by cell, where every access to a row
and to a cell of it goes by an index. An index of no row or of no cell has the outcome `none`, but
for a cell that is only erased if it is there. So has the last column where there is no column.

None of this ever happens. A screen starts out well-formed, and each event leaves a well-formed
screen so, whatever the order of printing, moves and erasing and however narrow the screen: rows are
added before the cursor gets to them, and a character of two columns on a screen of one is drawn
into the one cell that is there.

## Main definitions

* `Screen.draw?`, `Screen.cell?` : changing and reading a cell by its indices.
* `Screen.perform?`, `Screen.feed?` : events and chunks of a stream by indices.

## Main results

* `Screen.WellFormed.perform?_eq`, `Screen.WellFormed.perform` : one event.
* `Screen.wellFormed_of_stream` : any events and any chunks.
-/

namespace Typeline

namespace Screen

section Operations

variable (s : Screen)

/-! ### Cells -/

/-- Change a row. There is no outcome if there is no such row. -/
def changeRow? (row : Nat) (f : List Cell → Option (List Cell)) : Option Screen := do
  let cells ← f (← s.rows[row]?)
  return { s with rows := s.rows.set row cells }

/-- Change a cell. There is no outcome if there is no such cell. -/
def draw? (row column : Nat) (cell : Cell) : Option Screen :=
  s.changeRow? row fun cells =>
    if column < cells.length then some (cells.set column cell) else none

/-- Erase a cell of a row if the row has it. -/
def blankCell? (row column : Nat) : Option Screen :=
  s.changeRow? row fun cells => some (cells.set column .blank)

/-- Read a cell. There is no outcome if there is no such cell. -/
def cell? (row column : Nat) : Option Cell := do (← s.rows[row]?)[column]?

/-- Look for the last cell that shows a character among the first ones of a row, from the last of
them on. -/
def lastGlyph? (row : Nat) : Nat → Option (Option (Nat × Text))
  | 0 => some none
  | n + 1 => do
    match ← s.cell? row n with
    | .glyph t => some (some (n, t))
    | _ => lastGlyph? row n

/-! ### Events -/

/-- Move the cursor, to the last column if there are not so many. -/
def moveTo? (row column : Nat) : Option Screen := do
  let last ← sub? s.columns 1
  return { s with
    row := row
    column := min column last
    wrapPending := false
    afterJoiner := false
    rows := extendRows s.columns s.rows row }

/-- Let a character join the cell to the left of the cursor. -/
def attach? (c : Char) : Option Screen := do
  match ← s.lastGlyph? s.row ((if s.wrapPending then s.column else s.column - 1) + 1) with
  | none => some s
  | some (column, t) => s.draw? s.row column (.glyph (t ++ [c]))

/-- Go to the next row if there is no room for a character of one or two columns in this one. -/
def makeRoom? (width : Nat) : Option Screen :=
  if s.wrapPending || s.columns < s.column + width then s.moveTo? (s.row + 1) 0 else some s

/-- Draw a character of one or two columns at the cursor. -/
def drawGlyph? (c : Char) (width : Nat) : Option Screen := do
  let drawn ← s.draw? s.row s.column (.glyph [c])
  if width = 2 ∧ s.column + 1 < s.columns then drawn.draw? s.row (s.column + 1) .wideTail
  else some drawn

/-- Move the cursor behind a character of one or two columns. -/
def goBehind? (width : Nat) : Option Screen :=
  if s.columns ≤ s.column + width then do
    return { s with column := ← sub? s.columns 1, wrapPending := true }
  else some { s with column := s.column + width }

/-- Draw a character of one or two columns and move the cursor behind it. -/
def put? (c : Char) (width : Nat) : Option Screen := do
  (← (← s.makeRoom? width).drawGlyph? c width).goBehind? width

/-- Print a character. -/
def print? (c : Char) : Option Screen :=
  let width := charWidth c
  let joins := width == 0 || s.afterJoiner
  let s := { s with afterJoiner := c == joiner }
  if joins then s.attach? c else s.put? c width

/-- Carry out a control byte. -/
def execute? (b : UInt8) : Option Screen :=
  if b = 0x0D then s.moveTo? s.row 0
  else if b = 0x0A then s.moveTo? (s.row + 1) s.column
  else if b = 0x08 then s.moveTo? s.row (s.column - 1)
  else some s

/-- Erase the cells of a row between two columns, cell by cell. -/
def erase? (row start stop : Nat) : Option Screen :=
  (List.range' start (stop - start)).foldlM (fun s column => s.blankCell? row column)
    { s with rows := extendRows s.columns s.rows row }

/-- Erase the cells of the row of the cursor: 0 from the cursor on, 1 up to it, 2 all. -/
def eraseLine? (part : Nat) : Option Screen :=
  match part with
  | 0 => s.erase? s.row s.column s.columns
  | 1 => s.erase? s.row 0 (s.column + 1)
  | 2 => s.erase? s.row 0 s.columns
  | _ => some s

/-- Erase the whole screen, row by row. -/
def eraseDisplay? (part : Nat) : Option Screen :=
  if part = 2 then
    (List.range s.rows.length).foldlM (fun s row => s.erase? row 0 s.columns) s
  else some s

/-- Carry out a control sequence. -/
def control? (parameters : List Nat) (final : UInt8) : Option Screen :=
  let first := parameters.headD 0
  let second := (parameters.drop 1).headD 0
  let count := max first 1
  if final = 'A'.toUInt8 then s.moveTo? (s.row - count) s.column
  else if final = 'B'.toUInt8 then s.moveTo? (s.row + count) s.column
  else if final = 'C'.toUInt8 then s.moveTo? s.row (s.column + count)
  else if final = 'D'.toUInt8 then s.moveTo? s.row (s.column - count)
  else if final = 'H'.toUInt8 then s.moveTo? (first - 1) (second - 1)
  else if final = 'K'.toUInt8 then s.eraseLine? first
  else if final = 'J'.toUInt8 then s.eraseDisplay? first
  else some s

/-- Carry out an event of the stream. -/
def perform? : StreamEvent → Option Screen
  | .print c => s.print? c
  | .execute b => s.execute? b
  | .control parameters final => s.control? parameters final

/-- Show a chunk of a stream of bytes. -/
def feed? (chunk : List UInt8) : Option Screen := do
  let (reader, events) := StreamParser.runChunk s.reader chunk
  let s ← events.foldlM perform? s
  return { s with reader }

end Operations

/-! ### Cells of a well-formed screen -/

section Cells

variable {s : Screen} {row column : Nat} {f : List Cell → Option (List Cell)}
  {g : List Cell → List Cell}

theorem changeRow?_eq (hrow : row < s.rows.length)
    (hf : ∀ cells ∈ s.rows, f cells = some (g cells)) :
    s.changeRow? row f = some { s with rows := s.rows.modify row g } := by
  rw [changeRow?, List.getElem?_eq_getElem hrow, Option.bind_eq_bind, Option.bind_some,
    hf _ (List.getElem_mem hrow), List.modify_eq_set_getElem?, List.getElem?_eq_getElem hrow]
  rfl

theorem WellFormed.draw?_eq (h : s.WellFormed) (hrow : row < s.rows.length)
    (hcolumn : column < s.columns) (cell : Cell) : s.draw? row column cell =
      some { s with rows := s.rows.modify row fun cells => cells.set column cell } :=
  changeRow?_eq hrow fun cells hcells => if_pos (h.length_row cells hcells ▸ hcolumn)

theorem blankCell?_eq (hrow : row < s.rows.length) : s.blankCell? row column =
    some { s with rows := s.rows.modify row fun cells => cells.set column .blank } :=
  changeRow?_eq hrow fun _ _ => rfl

theorem cell?_eq {cells : List Cell} (hrow : s.rows[row]? = some cells)
    (hcolumn : column < cells.length) : s.cell? row column = some cells[column] := by
  rw [cell?, hrow, Option.bind_eq_bind, Option.bind_some, List.getElem?_eq_getElem hcolumn]

theorem joinLast_append_glyph (c : Char) (cells : List Cell) (t : Text) :
    joinLast c (cells ++ [.glyph t]) = cells ++ [.glyph (t ++ [c])] := by
  simp [joinLast, joinLast.go]

theorem joinLast_append_of_ne {cell : Cell} (hcell : ∀ t, cell ≠ .glyph t) (c : Char)
    (cells : List Cell) : joinLast c (cells ++ [cell]) = joinLast c cells ++ [cell] := by
  cases cell with
  | glyph t => exact absurd rfl (hcell t)
  | blank => simp [joinLast, joinLast.go]
  | wideTail => simp [joinLast, joinLast.go]

private theorem length_joinLast (c : Char) (cells : List Cell) :
    (joinLast c cells).length = cells.length := by
  induction cells using List.reverseRecOn with
  | nil => rfl
  | append_singleton cells cell ih =>
    by_cases hglyph : ∃ t, cell = .glyph t
    · obtain ⟨t, rfl⟩ := hglyph
      rw [joinLast_append_glyph, List.length_append, List.length_append]
      rfl
    · rw [joinLast_append_of_ne (not_exists.mp hglyph), List.length_append, List.length_append, ih]

private theorem lastGlyph?_succ_of_glyph {n : Nat} {t : Text}
    (hcell : s.cell? row n = some (.glyph t)) : s.lastGlyph? row (n + 1) = some (some (n, t)) := by
  rw [lastGlyph?, hcell]
  rfl

private theorem lastGlyph?_succ_of_ne {n : Nat} {cell : Cell} (hcell : s.cell? row n = some cell)
    (hnot : ∀ t, cell ≠ .glyph t) : s.lastGlyph? row (n + 1) = s.lastGlyph? row n := by
  rw [lastGlyph?, hcell]
  cases cell with
  | glyph t => exact absurd rfl (hnot t)
  | blank => rfl
  | wideTail => rfl

/-- **The cell that a character joins.** Looking for it from the last cell on never leaves the row,
and what it finds is what `joinLast` changes. -/
theorem lastGlyph?_eq {cells : List Cell} (hrow : s.rows[row]? = some cells) (c : Char) {n : Nat}
    (hn : n ≤ cells.length) :
    (s.lastGlyph? row n = some none ∧ joinLast c (cells.take n) = cells.take n) ∨
      ∃ m t, m < n ∧ s.lastGlyph? row n = some (some (m, t)) ∧
        joinLast c (cells.take n) = (cells.take n).set m (.glyph (t ++ [c])) := by
  induction n with
  | zero => exact Or.inl ⟨rfl, rfl⟩
  | succ n ih =>
    have hlength : (cells.take n).length = n := List.length_take_of_le (Nat.le_of_succ_le hn)
    have hcell := cell?_eq hrow hn
    rw [List.take_succ_eq_append_getElem hn]
    by_cases hglyph : ∃ t, cells[n] = .glyph t
    · obtain ⟨t, ht⟩ := hglyph
      rw [ht] at hcell ⊢
      refine Or.inr ⟨n, t, n.lt_succ_self, lastGlyph?_succ_of_glyph hcell, ?_⟩
      rw [joinLast_append_glyph, List.set_append, if_neg (by omega), hlength, Nat.sub_self]
      rfl
    · have hnot := not_exists.mp hglyph
      rw [lastGlyph?_succ_of_ne hcell hnot, joinLast_append_of_ne hnot]
      obtain ⟨hnone, hjoin⟩ | ⟨m, t, hm, hsome, hjoin⟩ := ih (Nat.le_of_succ_le hn)
      · exact Or.inl ⟨hnone, by rw [hjoin]⟩
      · refine Or.inr ⟨m, t, Nat.lt_succ_of_lt hm, hsome, ?_⟩
        rw [hjoin, List.set_append, if_pos (by omega)]

/-! ### Erasing cell by cell -/

private theorem getElem?_blanked (columns : List Nat) (cells : List Cell) (i : Nat) :
    (columns.foldl (fun cells column => cells.set column .blank) cells)[i]? =
      if i ∈ columns then cells[i]?.map fun _ => .blank else cells[i]? := by
  induction columns generalizing cells with
  | nil => rfl
  | cons column columns ih =>
    rw [List.foldl_cons, ih, List.getElem?_set]
    by_cases hcolumn : column = i
    · subst hcolumn
      by_cases hinside : column < cells.length <;> simp [hinside]
    · simp [hcolumn, Ne.symm hcolumn]

private theorem foldlM_blankCell? (columns : List Nat) (hrow : row < s.rows.length) :
    columns.foldlM (fun s column => s.blankCell? row column) s = some { s with
      rows := s.rows.modify row fun cells =>
        columns.foldl (fun cells column => cells.set column .blank) cells } := by
  induction columns generalizing s with
  | nil =>
    have hsame : s.rows.modify row (fun cells => cells) = s.rows := List.modify_id row s.rows
    simp only [List.foldl_nil, hsame]
    rfl
  | cons column columns ih =>
    rw [List.foldlM_cons, blankCell?_eq hrow, Option.bind_eq_bind, Option.bind_some,
      ih (by rwa [List.length_modify])]
    simp only [List.modify_modify_eq]
    rfl

/-- Two changes of a row that come to the same. -/
theorem modify_congr {rows : List (List Cell)} {g g' : List Cell → List Cell}
    (h : ∀ cells, rows[row]? = some cells → g cells = g' cells) :
    rows.modify row g = rows.modify row g' := by
  refine List.ext_getElem? fun i => ?_
  rw [List.getElem?_modify, List.getElem?_modify]
  refine Option.map_congr fun cells hcells => ?_
  split
  · next hrow => exact h cells (hrow ▸ hcells)
  · rfl

/-- **Erasing cells** of a row that is there, between two columns. -/
theorem erase?_eq (hrow : row < s.rows.length) {start stop : Nat}
    (hg : ∀ cells ∈ s.rows, ∀ i, (g cells)[i]? =
      if start ≤ i ∧ i < stop then cells[i]?.map fun _ => .blank else cells[i]?) :
    s.erase? row start stop = some { s with rows := s.rows.modify row g } := by
  have hrows : extendRows s.columns s.rows row = s.rows := by
    rw [extendRows, Nat.sub_eq_zero_of_le hrow]
    exact List.append_nil _
  have hblanked : s.rows.modify row (fun cells => (List.range' start (stop - start)).foldl
      (fun cells column => cells.set column .blank) cells) = s.rows.modify row g := by
    refine modify_congr fun cells hcells => List.ext_getElem? fun i => ?_
    have hmem : i ∈ List.range' start (stop - start) ↔ start ≤ i ∧ i < stop := by
      rw [List.mem_range'_1]
      omega
    rw [getElem?_blanked, hg cells (List.mem_of_getElem? hcells)]
    exact if_congr hmem rfl rfl
  rw [erase?, hrows, foldlM_blankCell? _ hrow, hblanked]

end Cells

/-! ### Events on a well-formed screen -/

/-- Rows of which some have been erased, from the top on. -/
def blankFirst (n : Nat) (rows : List (List Cell)) : List (List Cell) :=
  rows.mapIdx fun i cells => if i < n then blankRow cells.length else cells

namespace WellFormed

variable {s : Screen} (h : s.WellFormed)

include h

theorem moveTo?_eq (row column : Nat) : s.moveTo? row column = some (s.moveTo row column) := by
  rw [moveTo?, sub?_of_le h.columns_pos]
  rfl

theorem attach?_eq (c : Char) : s.attach? c = some (s.attach c) := by
  have hcolumn := h.column_lt
  obtain ⟨cells, hrow, hmem⟩ : ∃ cells, s.rows[s.row]? = some cells ∧ cells ∈ s.rows :=
    ⟨_, List.getElem?_eq_getElem h.row_lt, List.getElem_mem h.row_lt⟩
  have hlength := h.length_row cells hmem
  rw [attach?, attach]
  generalize hlast : (if s.wrapPending = true then s.column else s.column - 1) = last
  have hinside : last + 1 ≤ cells.length := by
    split at hlast <;> omega
  -- Only the row of the cursor matters, and in it only the cell that is found.
  have hjoin (g : List Cell → List Cell)
      (hg : joinLast c (cells.take (last + 1)) ++ cells.drop (last + 1) = g cells) :
      (s.rows.modify s.row fun cells =>
        joinLast c (cells.take (last + 1)) ++ cells.drop (last + 1)) = s.rows.modify s.row g := by
    refine modify_congr fun cells' hcells' => ?_
    obtain rfl : cells = cells' := Option.some.inj (hrow.symm.trans hcells')
    exact hg
  obtain ⟨hnone, hsame⟩ | ⟨m, t, hm, hsome, hset⟩ := lastGlyph?_eq hrow c hinside
  · have hrows := hjoin id (by rw [hsame, List.take_append_drop]; rfl)
    rw [List.modify_id] at hrows
    rw [hnone, hrows]
    rfl
  · have hrows := hjoin (fun cells => cells.set m (.glyph (t ++ [c]))) (by
      rw [hset, ← List.set_append_left _ _ (by rw [List.length_take]; omega),
        List.take_append_drop])
    rw [hsome, hrows]
    exact h.draw?_eq h.row_lt (by omega) _

theorem drawGlyph?_eq (c : Char) (width : Nat) : s.drawGlyph? c width = some { s with
    rows := s.rows.modify s.row fun cells => putCells cells s.column c width } := by
  have hfirst := h.modify (f := fun cells => cells.set s.column (.glyph [c]))
    fun cells hcells => (List.length_set ..).trans hcells
  rw [drawGlyph?, h.draw?_eq h.row_lt h.column_lt, Option.bind_eq_bind, Option.bind_some]
  by_cases hwide : width = 2
  · by_cases hroom : s.column + 1 < s.columns
    · rw [if_pos ⟨hwide, hroom⟩, hfirst.draw?_eq hfirst.row_lt hroom]
      simp only [List.modify_modify_eq, putCells, if_pos hwide]
      rfl
    · -- Behind the last column there is no cell for the right half.
      have hrows : (s.rows.modify s.row fun cells => cells.set s.column (.glyph [c])) =
          s.rows.modify s.row fun cells => putCells cells s.column c width :=
        modify_congr fun cells hcells => by
          have hlength := h.length_row cells (List.mem_of_getElem? hcells)
          rw [putCells, if_pos hwide, List.set_eq_of_length_le (i := s.column + 1)
            (by rw [List.length_set]; omega)]
      rw [if_neg fun hboth => hroom hboth.2, hrows]
  · simp only [if_neg fun hboth : width = 2 ∧ s.column + 1 < s.columns => hwide hboth.1, putCells,
      if_neg hwide]

theorem goBehind?_eq (hpending : s.wrapPending = false) (width : Nat) :
    s.goBehind? width = some { s with
      column := if s.columns ≤ s.column + width then s.columns - 1 else s.column + width
      wrapPending := s.columns ≤ s.column + width } := by
  rw [goBehind?]
  by_cases hfull : s.columns ≤ s.column + width
  · simp only [if_pos hfull, decide_eq_true hfull, sub?_of_le h.columns_pos]
    rfl
  · simp only [if_neg hfull, decide_eq_false hfull, ← hpending]

/-- **Printing a character that takes room.** -/
theorem put?_eq (c : Char) (width : Nat) : s.put? c width = some (s.put c width) := by
  have hput {t : Screen} (ht : t.WellFormed) (hpending : t.wrapPending = false) :
      (t.drawGlyph? c width).bind (fun t => t.goBehind? width) = some { t with
        rows := t.rows.modify t.row fun cells => putCells cells t.column c width
        column := if t.columns ≤ t.column + width then t.columns - 1 else t.column + width
        wrapPending := t.columns ≤ t.column + width } := by
    have hdrawn := ht.modify (f := fun cells => putCells cells t.column c width)
      fun cells hcells => (length_putCells ..).trans hcells
    rw [ht.drawGlyph?_eq, Option.bind_some, hdrawn.goBehind?_eq hpending]
  rw [put?, Screen.put, makeRoom?]
  by_cases hwraps : (s.wrapPending || decide (s.columns < s.column + width)) = true
  · rw [if_pos hwraps, if_pos hwraps, h.moveTo?_eq]
    exact hput (h.moveTo _ _) rfl
  · have hpending : s.wrapPending = false := by
      rw [Bool.or_eq_true, not_or, Bool.not_eq_true] at hwraps
      exact hwraps.1
    rw [if_neg hwraps, if_neg hwraps]
    exact hput h hpending

theorem afterJoiner_updated (after : Bool) : { s with afterJoiner := after }.WellFormed :=
  ⟨h.columns_pos, h.length_row, h.row_lt, h.column_lt, h.last_of_pending⟩

theorem print?_eq (c : Char) : s.print? c = some (s.print c) := by
  have hmarked := h.afterJoiner_updated (c == joiner)
  rw [print?, print]
  split
  · exact hmarked.attach?_eq c
  · exact hmarked.put?_eq c _

theorem execute?_eq (b : UInt8) : s.execute? b = some (s.execute b) := by
  rw [execute?, execute]
  split_ifs <;> first | exact h.moveTo?_eq _ _ | rfl

theorem eraseLine?_eq (part : Nat) : s.eraseLine? part = some (s.eraseLine part) := by
  have hcolumn := h.column_lt
  match part with
  | 0 =>
    refine erase?_eq (g := fun cells => cells.take s.column ++ blankRow (cells.length - s.column))
      h.row_lt fun cells hcells i => ?_
    have hlength := h.length_row cells hcells
    rw [List.getElem?_append, blankRow, List.getElem?_replicate, List.length_take]
    grind
  | 1 =>
    refine erase?_eq (g := fun cells =>
      blankRow (min (s.column + 1) cells.length) ++ cells.drop (s.column + 1))
      h.row_lt fun cells hcells i => ?_
    have hlength := h.length_row cells hcells
    rw [List.getElem?_append, blankRow, List.getElem?_replicate, List.length_replicate]
    grind
  | 2 =>
    refine erase?_eq (g := fun cells => blankRow cells.length) h.row_lt fun cells hcells i => ?_
    have hlength := h.length_row cells hcells
    rw [blankRow, List.getElem?_replicate]
    grind
  | part + 3 =>
    have hsame : s.rows.modify s.row (fun cells => cells) = s.rows := List.modify_id s.row s.rows
    change some s = some { s with rows := s.rows.modify s.row fun cells => cells }
    rw [hsame]

private theorem length_blankFirst (n : Nat) :
    ∀ cells ∈ blankFirst n s.rows, cells.length = s.columns := by
  intro cells hcells
  obtain ⟨i, hi, rfl⟩ := List.mem_mapIdx.mp hcells
  have hrow := h.length_row _ (List.getElem_mem hi)
  split
  · exact List.length_replicate.trans hrow
  · exact hrow

private theorem foldlM_erase? {n : Nat} (hn : n ≤ s.rows.length) :
    (List.range n).foldlM (fun s row => s.erase? row 0 s.columns) s =
      some { s with rows := blankFirst n s.rows } := by
  induction n with
  | zero =>
    rw [show blankFirst 0 s.rows = s.rows from
      List.ext_getElem? fun i => by simp [blankFirst, List.getElem?_mapIdx]]
    rfl
  | succ n ih =>
    have hlength := h.length_blankFirst n
    have hrows : (blankFirst n s.rows).modify n (fun cells => blankRow cells.length) =
        blankFirst (n + 1) s.rows := by
      refine List.ext_getElem? fun i => ?_
      rw [List.getElem?_modify, blankFirst, blankFirst, List.getElem?_mapIdx, List.getElem?_mapIdx]
      rcases Nat.lt_trichotomy n i with hi | rfl | hi
      · simp [Nat.ne_of_lt hi, Nat.lt_asymm hi, Nat.not_lt.mpr hi]
      · simp
      · simp [Nat.ne_of_gt hi, hi, Nat.lt_succ_of_lt hi]
    have herase : { s with rows := blankFirst n s.rows }.erase? n 0 s.columns = some { s with
        rows := (blankFirst n s.rows).modify n fun cells => blankRow cells.length } := by
      refine erase?_eq (by rwa [blankFirst, List.length_mapIdx]) fun cells hcells i => ?_
      have hrow := hlength cells hcells
      rw [blankRow, List.getElem?_replicate, hrow]
      by_cases hi : i < s.columns
      · rw [if_pos hi, if_pos ⟨i.zero_le, hi⟩, List.getElem?_eq_getElem (by rwa [hrow])]
        rfl
      · rw [if_neg hi, if_neg fun hboth => hi hboth.2,
          List.getElem?_eq_none (by rw [hrow]; exact Nat.not_lt.mp hi)]
    rw [List.range_succ, List.foldlM_append, ih (Nat.le_of_succ_le hn), Option.bind_eq_bind,
      Option.bind_some, List.foldlM_cons, herase, hrows]
    rfl

theorem eraseDisplay?_eq (part : Nat) : s.eraseDisplay? part = some (s.eraseDisplay part) := by
  rw [eraseDisplay?, Screen.eraseDisplay]
  split
  · have hall : blankFirst s.rows.length s.rows =
        s.rows.map fun cells => blankRow cells.length :=
      List.ext_getElem (by simp [blankFirst]) fun i hi _ => by
        rw [blankFirst, List.length_mapIdx] at hi
        simp [blankFirst, hi]
    rw [h.foldlM_erase? (Nat.le_refl _), hall]
  · rfl

theorem control?_eq (parameters : List Nat) (final : UInt8) :
    s.control? parameters final = some (s.control parameters final) := by
  rw [control?, Screen.control]
  simp only [h.moveTo?_eq, h.eraseLine?_eq, h.eraseDisplay?_eq]
  split_ifs <;> rfl

/-- **One event**: every index is that of a row or a cell that is there. -/
theorem perform?_eq (event : StreamEvent) : s.perform? event = some (s.perform event) := by
  cases event with
  | print c => exact h.print?_eq c
  | execute b => exact h.execute?_eq b
  | control parameters final => exact h.control?_eq parameters final

/-! ### What an event preserves -/

theorem attach (c : Char) : (s.attach c).WellFormed :=
  h.modify fun cells hcells => by
    rw [List.length_append, length_joinLast, ← List.length_append, List.take_append_drop, hcells]

theorem print (c : Char) : (s.print c).WellFormed := by
  have hmarked := h.afterJoiner_updated (c == joiner)
  rw [Screen.print]
  split
  · exact hmarked.attach c
  · exact hmarked.put c _

theorem execute (b : UInt8) : (s.execute b).WellFormed := by
  rw [Screen.execute]
  split_ifs <;> first | exact h.moveTo _ _ | exact h

theorem control (parameters : List Nat) (final : UInt8) :
    (s.control parameters final).WellFormed := by
  rw [Screen.control]
  split_ifs <;>
    first | exact h.moveTo _ _ | exact h.eraseLine _ | exact h.eraseDisplay _ | exact h

/-- **One event** leaves the screen well-formed. -/
theorem perform (event : StreamEvent) : (s.perform event).WellFormed := by
  cases event with
  | print c => exact h.print c
  | execute b => exact h.execute b
  | control parameters final => exact h.control parameters final

/-! ### Streams -/

/-- A run of steps that each have an outcome and leave the screen well-formed. -/
theorem foldlM_eq {α : Type} {step? : Screen → α → Option Screen} {step : Screen → α → Screen}
    (hstep : ∀ s : Screen, s.WellFormed → ∀ a, step? s a = some (step s a) ∧
      (step s a).WellFormed ∧ (step s a).columns = s.columns) (as : List α) :
    as.foldlM step? s = some (as.foldl step s) ∧ (as.foldl step s).WellFormed ∧
      (as.foldl step s).columns = s.columns := by
  induction as generalizing s with
  | nil => exact ⟨rfl, h, rfl⟩
  | cons a as ih =>
    obtain ⟨hone, hwell, hcolumns⟩ := hstep s h a
    obtain ⟨hrun, hwell', hcolumns'⟩ := ih hwell
    rw [List.foldlM_cons, hone, Option.bind_eq_bind, Option.bind_some]
    exact ⟨hrun, hwell', hcolumns'.trans hcolumns⟩

theorem foldlM_perform? (events : List StreamEvent) :
    events.foldlM perform? s = some (events.foldl Screen.perform s) ∧
      (events.foldl Screen.perform s).WellFormed ∧
      (events.foldl Screen.perform s).columns = s.columns :=
  h.foldlM_eq (fun s hs event => ⟨hs.perform?_eq event, hs.perform event,
    (keeps_perform s event).2⟩) events

/-- **A chunk.** -/
theorem feed?_eq (chunk : List UInt8) :
    s.feed? chunk = some (s.feed chunk) ∧ (s.feed chunk).WellFormed ∧
      (s.feed chunk).columns = s.columns := by
  obtain ⟨hrun, hwell, hcolumns⟩ :=
    h.foldlM_perform? (StreamParser.runChunk s.reader chunk).2
  refine ⟨?_, ⟨hwell.columns_pos, hwell.length_row, hwell.row_lt, hwell.column_lt,
    hwell.last_of_pending⟩, hcolumns⟩
  rw [feed?, Screen.feed]
  simp only [hrun]
  rfl

end WellFormed

/-- **Screens stay well-formed.** Whatever the number of columns, any events, and any bytes in
chunks of any length, are carried out without an index of no row or of no cell. They lead to the
same screen as without indices, which is well-formed and has the columns it started with, at least
one. -/
theorem wellFormed_of_stream (columns : Nat) :
    (∀ events : List StreamEvent, ∃ s, events.foldlM perform? (blank columns) = some s ∧
      s = events.foldl perform (blank columns) ∧ s.columns = max columns 1 ∧ s.WellFormed) ∧
    ∀ chunks : List (List UInt8), ∃ s, chunks.foldlM feed? (blank columns) = some s ∧
      s = chunks.foldl feed (blank columns) ∧ s.columns = max columns 1 ∧ s.WellFormed := by
  have hblank := (fresh_blank columns).wellFormed
  constructor
  · intro events
    obtain ⟨hrun, hwell, hcolumns⟩ := hblank.foldlM_perform? events
    exact ⟨_, hrun, rfl, hcolumns, hwell⟩
  · intro chunks
    obtain ⟨hrun, hwell, hcolumns⟩ := hblank.foldlM_eq (fun s hs chunk => hs.feed?_eq chunk) chunks
    exact ⟨_, hrun, rfl, hcolumns, hwell⟩

end Screen

end Typeline
