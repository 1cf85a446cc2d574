import Mathlib.Algebra.GroupWithZero.Nat
import Typeline.Proofs.Terminal.Cells
import Typeline.Proofs.Terminal.Stream

/-!
# Showing texts on a screen

`Screen.Shows` relates a screen to the screen after a text, for texts that are read to their end.
Such steps are put together by `Shows.append`, and what each kind of text does is said here once:
control characters, control sequences, and runs of printable characters.

A run of characters is printed by `Screen.putAll`. If all of them take one column, the run fills the
cells from the place of the cursor on, over as many rows as it takes. If the characters take one
column or two, and the row has room for all of them, the run fills a part of the row.

## Main definitions

* `Screen.Shows` : showing a text leads from one screen to another.
* `Screen.cellsOf` : the cells that a run of characters fills.
* `Screen.putAll` : printing a run of characters.

## Main results

* `Screen.feedText_of_shows` : replaying a text.
* `Screen.cell_putAll` : printing characters of one column.
* `Screen.cell_putAll_of_fits` : printing characters into one row.
* `Screen.cell_overwrite` : overwriting a row.
-/

namespace Typeline

namespace Screen

open StreamParser (Reads)

/-- Showing a text, which is read to its end, leads from one screen to another. -/
def Shows (s : Screen) (t : Text) (s' : Screen) : Prop :=
  ∃ events, Reads t events ∧ events.foldl perform s = s'

theorem Shows.nil (s : Screen) : s.Shows [] s := ⟨[], .nil, rfl⟩

theorem Shows.append {s s' s'' : Screen} {t u : Text} (h : s.Shows t s') (h' : s'.Shows u s'') :
    s.Shows (t ++ u) s'' := by
  obtain ⟨events, hreads, rfl⟩ := h
  obtain ⟨events', hreads', rfl⟩ := h'
  exact ⟨events ++ events', hreads.append hreads', List.foldl_append⟩

theorem shows_of_reads {t : Text} {event : StreamEvent} (h : Reads t [event]) (s : Screen) :
    s.Shows t (s.perform event) :=
  ⟨[event], h, rfl⟩

/-! ### Replaying -/

/-- What an event leaves as it was: the reader of the stream and the number of columns. -/
def Keeps (s s' : Screen) : Prop := s'.reader = s.reader ∧ s'.columns = s.columns

theorem keeps_print (s : Screen) (c : Char) : s.Keeps (s.print c) := by
  rw [print]
  split
  · exact ⟨rfl, rfl⟩
  · rw [put]
    split <;> exact ⟨rfl, rfl⟩

private theorem keeps_execute (s : Screen) (b : UInt8) : s.Keeps (s.execute b) := by
  rw [execute]
  repeat' split
  all_goals exact ⟨rfl, rfl⟩

private theorem keeps_control (s : Screen) (parameters : List Nat) (final : UInt8) :
    s.Keeps (s.control parameters final) := by
  have herase (part : Nat) : s.Keeps (s.eraseDisplay part) := by
    rw [eraseDisplay]
    split <;> exact ⟨rfl, rfl⟩
  rw [control]
  repeat' split
  all_goals first | exact ⟨rfl, rfl⟩ | exact herase _

theorem keeps_perform (s : Screen) (event : StreamEvent) : s.Keeps (s.perform event) := by
  cases event with
  | print c => exact keeps_print s c
  | execute b => exact keeps_execute s b
  | control parameters final => exact keeps_control s parameters final

theorem Shows.keeps {s s' : Screen} {t : Text} (h : s.Shows t s') : s.Keeps s' := by
  obtain ⟨events, -, rfl⟩ := h
  induction events generalizing s with
  | nil => exact ⟨rfl, rfl⟩
  | cons event events ih =>
    obtain ⟨hreader, hcolumns⟩ := keeps_perform s event
    obtain ⟨hreader', hcolumns'⟩ := ih (s := s.perform event)
    exact ⟨hreader'.trans hreader, hcolumns'.trans hcolumns⟩

/-- Replaying a text that is read to its end. -/
theorem feedText_of_shows {s s' : Screen} {t : Text} (hreader : s.reader = StreamParser.start)
    (h : s.Shows t s') : s.feedText t = s' := by
  have hkept : s'.reader = StreamParser.start := h.keeps.1.trans hreader
  obtain ⟨events, hreads, rfl⟩ := h
  have hchunk : StreamParser.runChunk StreamParser.start (Utf8.encode t) =
      (StreamParser.start, events) := by
    change (StreamParser.endChunk (StreamParser.run StreamParser.start (Utf8.encode t)).1,
      (StreamParser.run StreamParser.start (Utf8.encode t)).2) = _
    rw [hreads]
    rfl
  rw [feedText, feed, hreader, hchunk]
  dsimp only
  rw [← hkept]

/-! ### Control characters and sequences -/

theorem shows_return (s : Screen) : s.Shows ['\r'] (s.moveTo s.row 0) :=
  shows_of_reads StreamParser.reads_return s

theorem shows_lineFeed (s : Screen) : s.Shows ['\n'] (s.moveTo (s.row + 1) s.column) :=
  shows_of_reads StreamParser.reads_lineFeed s

theorem shows_bell (s : Screen) : s.Shows ['\x07'] s :=
  shows_of_reads StreamParser.reads_bell s

theorem shows_cursorUp (s : Screen) {n : Nat} (hpos : 0 < n) (hmax : n ≤ 65535) :
    s.Shows (ControlSequence.cursorUp n).text (s.moveTo (s.row - n) s.column) := by
  have h := shows_of_reads (StreamParser.reads_cursorUp n) s
  rw [Nat.min_eq_right hmax] at h
  change s.Shows _ (s.moveTo (s.row - max n 1) s.column) at h
  rwa [Nat.max_eq_left hpos] at h

theorem shows_cursorDown (s : Screen) {n : Nat} (hpos : 0 < n) (hmax : n ≤ 65535) :
    s.Shows (ControlSequence.cursorDown n).text (s.moveTo (s.row + n) s.column) := by
  have h := shows_of_reads (StreamParser.reads_cursorDown n) s
  rw [Nat.min_eq_right hmax] at h
  change s.Shows _ (s.moveTo (s.row + max n 1) s.column) at h
  rwa [Nat.max_eq_left hpos] at h

theorem shows_cursorForward (s : Screen) {n : Nat} (hpos : 0 < n) (hmax : n ≤ 65535) :
    s.Shows (ControlSequence.cursorForward n).text (s.moveTo s.row (s.column + n)) := by
  have h := shows_of_reads (StreamParser.reads_cursorForward n) s
  rw [Nat.min_eq_right hmax] at h
  change s.Shows _ (s.moveTo s.row (s.column + max n 1)) at h
  rwa [Nat.max_eq_left hpos] at h

theorem shows_cursorBackward (s : Screen) (n : Nat) :
    s.Shows (ControlSequence.cursorBackward n).text
      (s.moveTo s.row (s.column - max (min 65535 n) 1)) :=
  shows_of_reads (StreamParser.reads_cursorBackward n) s

theorem shows_eraseToEnd (s : Screen) : s.Shows eraseToEnd (s.eraseLine 0) :=
  shows_of_reads (StreamParser.reads_eraseLine 0) s

theorem shows_clearRow (s : Screen) : s.Shows ('\r' :: eraseToEnd) s.clearRow :=
  (shows_return s).append (shows_eraseToEnd _)

/-- A style is not drawn. -/
theorem shows_style (s : Screen) (a b c : Nat) :
    s.Shows (ControlSequence.style a b c).text s :=
  shows_of_reads (StreamParser.reads_style a b c) s

theorem shows_styleSingle (s : Screen) (n : Nat) :
    s.Shows (ControlSequence.styleSingle n).text s :=
  shows_of_reads (StreamParser.reads_styleSingle n) s

/-- A terminal that is asked for a report shows nothing. -/
theorem shows_statusReport (s : Screen) (n : Nat) :
    s.Shows (ControlSequence.statusReport n).text s :=
  shows_of_reads (StreamParser.reads_statusReport n) s

/-- Clearing the screen puts the cursor home. -/
theorem shows_clear (s : Screen) :
    s.Shows (ControlSequence.cursorHome.text ++ (ControlSequence.eraseDisplay 2).text)
      ((s.moveTo 0 0).eraseDisplay 2) :=
  (shows_of_reads StreamParser.reads_cursorHome s).append
    (shows_of_reads (StreamParser.reads_eraseDisplay 2) _)

/-! ### Runs of characters -/

/-- The cells that a run of characters fills. -/
def cellsOf (t : Text) : List Cell :=
  t.flatMap fun c => .glyph [c] :: List.replicate (charWidth c - 1) .wideTail

/-- A run of characters fills as many cells as its characters take columns. -/
theorem length_cellsOf {t : Text} (ht : ∀ c ∈ t, 0 < charWidth c) :
    (cellsOf t).length = (t.map charWidth).sum := by
  rw [cellsOf, List.length_flatMap]
  refine congrArg List.sum (List.map_congr_left fun c hc => ?_)
  have hpos := ht c hc
  rw [List.length_cons, List.length_replicate]
  omega

/-- Print a run of characters. -/
def putAll (s : Screen) (t : Text) : Screen := t.foldl (fun s c => s.put c (charWidth c)) s

@[simp] theorem putAll_nil (s : Screen) : s.putAll [] = s := rfl

@[simp] theorem putAll_cons (s : Screen) (c : Char) (t : Text) :
    s.putAll (c :: t) = (s.put c (charWidth c)).putAll t := rfl

theorem putAll_append (s : Screen) (t u : Text) : s.putAll (t ++ u) = (s.putAll t).putAll u :=
  List.foldl_append

private theorem afterJoiner_put {s : Screen} (h : s.afterJoiner = false) (c : Char) (width : Nat) :
    (s.put c width).afterJoiner = false := by
  rw [put]
  split
  · rfl
  · exact h

private theorem print_eq_put {s : Screen} (hjoiner : s.afterJoiner = false) {c : Char}
    (hc : 0 < charWidth c) : s.print c = s.put c (charWidth c) := by
  have hne : (c == joiner) = false := by
    rw [beq_eq_false_iff_ne]
    rintro rfl
    exact absurd hc (by decide +kernel)
  have hsame : { s with afterJoiner := c == joiner } = s := by rw [hne, ← hjoiner]
  rw [print, hsame, hjoiner, if_neg (by simp; omega)]

/-- Printable characters are printed one after the other. -/
theorem shows_putAll {s : Screen} (hjoiner : s.afterJoiner = false) {t : Text}
    (ht : ∀ c ∈ t, 0 < charWidth c) :
    s.Shows t (s.putAll t) ∧ (s.putAll t).afterJoiner = false := by
  induction t generalizing s with
  | nil => exact ⟨.nil s, hjoiner⟩
  | cons c t ih =>
    have hc := ht c List.mem_cons_self
    have hstep : s.Shows [c] (s.put c (charWidth c)) := by
      rw [← print_eq_put hjoiner hc]
      exact shows_of_reads
        (StreamParser.reads_print (StreamParser.isControl_of_charWidth_pos hc)) s
    obtain ⟨hshows, hkept⟩ := ih (afterJoiner_put hjoiner c _)
      fun d hd => ht d (List.mem_cons_of_mem c hd)
    exact ⟨hstep.append hshows, hkept⟩

theorem WellFormed.putAll {s : Screen} (h : s.WellFormed) (t : Text) :
    (s.putAll t).WellFormed := by
  induction t generalizing s with
  | nil => exact h
  | cons c t ih => exact ih (h.put c _)

theorem columns_putAll (s : Screen) (t : Text) : (s.putAll t).columns = s.columns := by
  induction t generalizing s with
  | nil => rfl
  | cons c t ih => rw [putAll_cons, ih, columns_put]

/-! ### Characters of one column -/

section Narrow

variable {s : Screen} (h : s.WellFormed) {t : Text} (ht : ∀ c ∈ t, charWidth c = 1)

include ht in
theorem cellsOf_narrow : cellsOf t = t.map fun c => .glyph [c] := by
  induction t with
  | nil => rfl
  | cons c t ih =>
    have hc := ht c List.mem_cons_self
    have hrest := ih fun d hd => ht d (List.mem_cons_of_mem c hd)
    rw [cellsOf, List.flatMap_cons, ← cellsOf, hrest, hc]
    rfl

include ht in
theorem length_cellsOf_narrow : (cellsOf t).length = t.length := by
  rw [cellsOf_narrow ht, List.length_map]

include h ht

/-- The cursor stays in the row in which the last character is drawn. -/
theorem row_putAll (hne : t ≠ []) : (s.putAll t).row = (s.place + t.length - 1) / s.columns := by
  induction t generalizing s with
  | nil => exact absurd rfl hne
  | cons c t ih =>
    rw [putAll_cons, ht c List.mem_cons_self, List.length_cons]
    by_cases hrest : t = []
    · subst hrest
      exact row_put_one h c
    · rw [ih (h.put c 1) (fun d hd => ht d (List.mem_cons_of_mem c hd)) hrest, place_put_one h,
        columns_put]
      congr 1
      omega

/-- Characters of one column fill the cells from the place of the cursor on, row by row. -/
theorem cell_putAll {row column : Nat} (hcolumn : column < s.columns) :
    (s.putAll t).cell row column =
      if s.place ≤ row * s.columns + column then
        (cellsOf t)[row * s.columns + column - s.place]?.getD (s.cell row column)
      else s.cell row column := by
  rw [cellsOf_narrow ht]
  induction t generalizing s with
  | nil => simp
  | cons c t ih =>
    have hfirst := cell_put_one h c row hcolumn
    have hrest := ih (s := s.put c 1) (h.put c 1) (fun d hd => ht d (List.mem_cons_of_mem c hd))
      (by rwa [columns_put])
    rw [columns_put, place_put_one h, hfirst] at hrest
    rw [putAll_cons, ht c List.mem_cons_self, hrest]
    generalize row * s.columns + column = index
    rcases Nat.lt_trichotomy index s.place with hlt | heq | hgt
    · rw [if_neg (by omega), if_neg (by omega), if_neg (by omega)]
    · rw [if_neg (by omega), if_pos heq, if_pos (by omega), heq, Nat.sub_self]
      rfl
    · rw [if_pos (by omega), if_neg (by omega), if_pos (by omega),
        show index - s.place = index - (s.place + 1) + 1 by omega]
      rfl

end Narrow

/-! ### Characters that fit into the row -/

theorem cellsOf_append (t u : Text) : cellsOf (t ++ u) = cellsOf t ++ cellsOf u :=
  List.flatMap_append

theorem cellsOf_cons_one {c : Char} (hc : charWidth c = 1) (t : Text) :
    cellsOf (c :: t) = .glyph [c] :: cellsOf t := by
  rw [cellsOf, List.flatMap_cons, hc]
  rfl

theorem cellsOf_cons_two {c : Char} (hc : charWidth c = 2) (t : Text) :
    cellsOf (c :: t) = .glyph [c] :: .wideTail :: cellsOf t := by
  rw [cellsOf, List.flatMap_cons, hc]
  rfl

theorem length_cellsOf_cons {c : Char} (hc : charWidth c = 1 ∨ charWidth c = 2) (t : Text) :
    (cellsOf (c :: t)).length = charWidth c + (cellsOf t).length := by
  rcases hc with hc | hc
  · rw [cellsOf_cons_one hc, List.length_cons, hc]
    omega
  · rw [cellsOf_cons_two hc, List.length_cons, List.length_cons, hc]
    omega

/-- The cells of a run after its first character has been put. -/
theorem getElem?_cellsOf_cons {c : Char} (hc : charWidth c = 1 ∨ charWidth c = 2) (t : Text)
    (i : Nat) (old : Cell) : (cellsOf (c :: t))[i]?.getD old =
      if i = 0 then .glyph [c]
      else if i = 1 ∧ charWidth c = 2 then .wideTail
      else (cellsOf t)[i - charWidth c]?.getD old := by
  rcases hc with hc | hc
  · rw [cellsOf_cons_one hc, hc]
    cases i with
    | zero => rfl
    | succ i => simp
  · rw [cellsOf_cons_two hc, hc]
    match i with
    | 0 => rfl
    | 1 => rfl
    | i + 2 => simp

theorem length_cellsOf_pos {t : Text} (hne : t ≠ [])
    (ht : ∀ c ∈ t, charWidth c = 1 ∨ charWidth c = 2) : 0 < (cellsOf t).length := by
  obtain ⟨c, t, rfl⟩ := List.exists_cons_of_ne_nil hne
  have hc := ht c List.mem_cons_self
  rw [length_cellsOf_cons hc]
  omega

/-- The cursor behind a character that leaves room in the row. -/
theorem cursor_put_of_room {s : Screen} {width : Nat} (hpending : s.wrapPending = false)
    (hroom : s.column + width < s.columns) (c : Char) :
    (s.put c width).row = s.row ∧ (s.put c width).wrapPending = false ∧
      (s.put c width).column = s.column + width := by
  rw [put_of_fits hpending (Nat.le_of_lt hroom)]
  exact ⟨rfl, decide_eq_false (by omega), if_neg (by omega)⟩

section Fits

variable {s : Screen} {t : Text} (ht : ∀ c ∈ t, charWidth c = 1 ∨ charWidth c = 2)
  (hpending : s.wrapPending = false) (hfits : s.column + (cellsOf t).length ≤ s.columns)

include ht hpending hfits

theorem row_putAll_of_fits : (s.putAll t).row = s.row := by
  induction t generalizing s with
  | nil => rfl
  | cons c t ih =>
    have hc := ht c List.mem_cons_self
    have hrest := fun d hd => ht d (List.mem_cons_of_mem c hd)
    rw [length_cellsOf_cons hc] at hfits
    rw [putAll_cons]
    by_cases hlast : t = []
    · rw [hlast, putAll_nil, put_of_fits hpending (by omega)]
    · have hpos := length_cellsOf_pos hlast hrest
      obtain ⟨hrow, hfree, hcolumn⟩ := cursor_put_of_room hpending
        (by omega : s.column + charWidth c < s.columns) c
      rw [ih hrest hfree (by rw [hcolumn, columns_put]; omega), hrow]

/-- The cursor behind a run that leaves room in the row. -/
theorem cursor_putAll_of_room (hroom : s.column + (cellsOf t).length < s.columns) :
    (s.putAll t).wrapPending = false ∧
      (s.putAll t).column = s.column + (cellsOf t).length := by
  induction t generalizing s with
  | nil => exact ⟨hpending, rfl⟩
  | cons c t ih =>
    have hc := ht c List.mem_cons_self
    rw [length_cellsOf_cons hc] at hroom ⊢
    obtain ⟨-, hfree, hcolumn⟩ := cursor_put_of_room hpending
      (by omega : s.column + charWidth c < s.columns) c
    obtain ⟨hlast, hplace⟩ := ih (s := s.put c (charWidth c))
      (fun d hd => ht d (List.mem_cons_of_mem c hd)) hfree
      (by rw [hcolumn, columns_put]; omega) (by rw [hcolumn, columns_put]; omega)
    exact ⟨hlast, by rw [putAll_cons, hplace, hcolumn]; omega⟩

/-- A run that fits into the row fills a part of it. -/
theorem cell_putAll_of_fits (h : s.WellFormed) (row column : Nat) :
    (s.putAll t).cell row column =
      if row = s.row ∧ s.column ≤ column then
        (cellsOf t)[column - s.column]?.getD (s.cell row column)
      else s.cell row column := by
  induction t generalizing s with
  | nil => simp [cellsOf]
  | cons c t ih =>
    have hc := ht c List.mem_cons_self
    have hrest := fun d hd => ht d (List.mem_cons_of_mem c hd)
    rw [length_cellsOf_cons hc] at hfits
    have hfirst := cell_put_of_fits h hc hpending (by omega) c row column
    have htail : ((s.put c (charWidth c)).putAll t).cell row column =
        if row = s.row ∧ s.column + charWidth c ≤ column then
          (cellsOf t)[column - (s.column + charWidth c)]?.getD
            ((s.put c (charWidth c)).cell row column)
        else (s.put c (charWidth c)).cell row column := by
      by_cases hlast : t = []
      · subst hlast
        simp [cellsOf]
      · have hpos := length_cellsOf_pos hlast hrest
        obtain ⟨hrow, hfree, hcolumn⟩ := cursor_put_of_room hpending
          (by omega : s.column + charWidth c < s.columns) c
        rw [ih hrest hfree (by rw [hcolumn, columns_put]; omega) (h.put c _), hrow, hcolumn]
    rw [putAll_cons, htail, hfirst, getElem?_cellsOf_cons hc]
    by_cases hrow : row = s.row
    · have hsub : column - s.column - charWidth c = column - (s.column + charWidth c) := by omega
      simp only [hrow, true_and, hsub]
      rcases hc with hc | hc <;> rw [hc] <;> grind
    · simp [hrow]

end Fits

/-! ### Overwriting a row -/

/-- Print a run, and erase what is behind it if the row has room for more. -/
def overwrite (s : Screen) (t : Text) : Screen :=
  if (cellsOf t).length < s.columns then (s.putAll t).eraseLine 0 else s.putAll t

theorem WellFormed.overwrite {s : Screen} (h : s.WellFormed) (t : Text) :
    (s.overwrite t).WellFormed := by
  rw [Screen.overwrite]
  split
  · exact (h.putAll t).eraseLine 0
  · exact h.putAll t

section Overwrite

variable {s : Screen} {t : Text} (ht : ∀ c ∈ t, charWidth c = 1 ∨ charWidth c = 2)
  (hstart : s.column = 0) (hpending : s.wrapPending = false)
  (hfits : (cellsOf t).length ≤ s.columns)

include ht hstart hpending hfits

/-- Nothing is left of what a row showed that is overwritten from its start. -/
theorem cell_overwrite (h : s.WellFormed) (row : Nat) {column : Nat}
    (hcolumn : column < s.columns) : (s.overwrite t).cell row column =
      if row = s.row then (cellsOf t)[column]?.getD .blank else s.cell row column := by
  have hrow := row_putAll_of_fits ht hpending (by omega)
  have hcell := cell_putAll_of_fits ht hpending (by omega) h row column
  rw [hstart, Nat.sub_zero] at hcell
  rw [overwrite]
  split
  · next hroom =>
    obtain ⟨-, hend⟩ := cursor_putAll_of_room ht hpending (by omega) (by omega)
    rw [cell_eraseLine (h.putAll t), hrow, hend, hstart, hcell]
    by_cases hsame : row = s.row
    · by_cases hbehind : (cellsOf t).length ≤ column
      · rw [if_pos ⟨hsame, by omega⟩, if_pos hsame, List.getElem?_eq_none hbehind]
        rfl
      · rw [if_neg (by omega), if_pos ⟨hsame, by omega⟩, if_pos hsame,
          List.getElem?_eq_getElem (by omega)]
        rfl
    · rw [if_neg (by omega), if_neg (by omega), if_neg hsame]
  · -- A full row has no cell left that the run does not fill.
    rw [hcell]
    by_cases hsame : row = s.row
    · rw [if_pos ⟨hsame, Nat.zero_le _⟩, if_pos hsame, List.getElem?_eq_getElem (by omega)]
      rfl
    · rw [if_neg (by omega), if_neg hsame]

end Overwrite

end Screen

end Typeline
