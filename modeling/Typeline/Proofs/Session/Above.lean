import Typeline.Proofs.Session.OnScreen
import Typeline.Proofs.Terminal.Lines

/-!
# Text above the edit

A program may write text above a line that is edited. The line is erased, the text is written where
it began, and the line is drawn again below. On the screen this puts in the rows of the text above
the edit and changes nothing else: what was above stays, and the edit, with its cursor, moves down
by as many rows. This rests on two things. What is erased are exactly the rows of the edit, and what
is written ends at the start of a row.

It holds after any calls that leave the edit on the screen, whatever the terminal showed before the
session. The line, the cursor and the history do not change.

## Main definitions

* `Session.textLines`, `Session.rowsAbove` : the lines of a text, and the rows that they take.
* `SessionCall.KeepsEdit` : a call that leaves the edit on the screen.

## Main results

* `Session.Stands.leads_printAbove` : writing text above the edit.
* `Session.leads_driven` : any calls that leave the edit on the screen.
* `Session.insertsRows_printAbove` : what writing text above the edit does to the screen.
-/

namespace Typeline

/-- A text of characters of one column and line feeds. -/
def NarrowLines (t : Text) : Prop := ∀ c ∈ t, c = '\n' ∨ charWidth c = 1

instance (t : Text) : Decidable (NarrowLines t) :=
  List.decidableBAll (fun c => c = '\n' ∨ charWidth c = 1) t

/-- A call that leaves the edit on the screen. Text that is written above it consists of characters
of one column. -/
def SessionCall.KeepsEdit : SessionCall → Prop
  | .feed | .reveal | .push _ => True
  | .hide => False
  | .printAbove t => NarrowLines t

instance : DecidablePred SessionCall.KeepsEdit := fun c =>
  match c with
  | .feed | .reveal | .push _ => .isTrue trivial
  | .hide => .isFalse id
  | .printAbove t => inferInstanceAs (Decidable (NarrowLines t))

namespace Session

/-! ### The lines of a text -/

/-- The lines of a text. A line feed at its end does not add a line. -/
def textLines (t : Text) : List Text :=
  (if t.getLast? = some '\n' then t.dropLast else t).splitOn '\n'

/-- The rows that the lines of a text take on a screen of some columns. -/
def rowsAbove (columns : Nat) (t : Text) : List Text := (textLines t).flatMap (wrapLine columns)

theorem splitOn_lineFeed_cons (c : Char) (t : Text) :
    (c :: t).splitOn '\n' =
      if c = '\n' then [] :: t.splitOn '\n' else (t.splitOn '\n').modifyHead (c :: ·) := by
  simp [List.splitOn, List.splitOnP_cons_eq_if_modifyHead]

/-- Lines that are split at line feeds are written with line ends between them. -/
theorem flatMap_splitOn (t : Text) :
    (t.splitOn '\n').flatMap (· ++ ['\r', '\n']) =
      t.flatMap (fun c => if c = '\n' then ['\r', '\n'] else [c]) ++ ['\r', '\n'] := by
  induction t with
  | nil => rfl
  | cons c t ih =>
    rw [splitOn_lineFeed_cons, List.flatMap_cons, List.append_assoc, ← ih]
    split
    · rfl
    · obtain ⟨l, lines, hlines⟩ := List.exists_cons_of_ne_nil (List.splitOn_ne_nil '\n' t)
      rw [hlines, List.modifyHead_cons, List.flatMap_cons, List.flatMap_cons]
      simp

/-- What is written above the edit are the lines of the text, each with its end. -/
theorem linesAbove_eq (t : Text) :
    linesAbove t = (textLines t).flatMap (· ++ ['\r', '\n']) := by
  rw [linesAbove, textLines]
  by_cases hlast : t.getLast? = some '\n'
  · obtain ⟨u, rfl⟩ := List.getLast?_eq_some_iff.mp hlast
    rw [if_pos hlast, if_pos hlast, flatMap_splitOn, List.dropLast_concat, List.append_nil,
      List.flatMap_append]
    rfl
  · rw [if_neg hlast, if_neg hlast, flatMap_splitOn]

private theorem narrow_splitOn {t : Text} (ht : NarrowLines t) :
    ∀ l ∈ t.splitOn '\n', ∀ c ∈ l, charWidth c = 1 := by
  induction t with
  | nil =>
    intro l hl c hc
    rw [List.splitOn_nil, List.mem_singleton] at hl
    rw [hl] at hc
    exact absurd hc List.not_mem_nil
  | cons c t ih =>
    have hrest := ih fun d hd => ht d (List.mem_cons_of_mem c hd)
    rw [splitOn_lineFeed_cons]
    split
    · intro l hl d hd
      rcases List.mem_cons.mp hl with rfl | hl
      · exact absurd hd List.not_mem_nil
      · exact hrest l hl d hd
    · next hne =>
      have hc := (ht c List.mem_cons_self).resolve_left hne
      obtain ⟨first, lines, hlines⟩ := List.exists_cons_of_ne_nil (List.splitOn_ne_nil '\n' t)
      rw [hlines] at hrest ⊢
      intro l hl d hd
      rcases List.mem_cons.mp hl with rfl | hl
      · rcases List.mem_cons.mp hd with rfl | hd
        · exact hc
        · exact hrest first List.mem_cons_self d hd
      · exact hrest l (List.mem_cons_of_mem first hl) d hd

private theorem narrow_textLines {t : Text} (ht : NarrowLines t) :
    ∀ l ∈ textLines t, ∀ c ∈ l, charWidth c = 1 := by
  rw [textLines]
  split
  · exact narrow_splitOn fun c hc => ht c ((List.dropLast_prefix t).subset hc)
  · exact narrow_splitOn ht

/-! ### Writing text above the edit -/

variable {s : Session} {screen : Screen} {first top : Nat}

/-- **Writing text above the edit.** From the row in which the next drawing would land on, the rows
of the text are shown and below them the edit, and nothing above is touched. -/
theorem Stands.leads_printAbove (hs : s.Stands screen first) (hterminal : s.isTerminal = true)
    (hcursor : s.editor.config.multiline = true →
      s.drawState.cursorRow = (s.view true).cursorRow)
    (hroom : s.HasRoom) (hnarrow : s.Narrow) {t : Text} (ht : NarrowLines t) :
    ∃ screen', s.output.Leads screen (s.printAbove t).output screen' ∧
      (s.printAbove t).OnScreen screen' (first + (rowsAbove s.columns t).length) ∧
      screen.SameAbove screen' first ∧ screen'.HoldsRows first (rowsAbove s.columns t) := by
  obtain ⟨screen₁, hleads₁, hhidden, hrow₁, hsame₁⟩ := hs.leads_hide hterminal hcursor
  obtain ⟨screen₂, hshows₂, hvacant₂, hrow₂, hsame₂, hholds₂⟩ :=
    hhidden.vacant.shows_lines (narrow_textLines ht)
  have hcolumns₁ : screen₁.columns = s.columns := by
    rw [hleads₁.columns_eq, hs.ready.columns_eq, width_eq hroom]
  rw [← linesAbove_eq] at hshows₂
  rw [hcolumns₁, ← rowsAbove, hrow₁] at hrow₂ hholds₂
  rw [hrow₁] at hsame₂
  have hleads₂ := hleads₁.trans (.of_write s.hide.output hshows₂)
  -- The line is drawn again where the cursor is.
  have hwritten : (s.hide.write (linesAbove t)).settings = s.settings := s.settings_hide
  have hnarrow₂ : (s.hide.write (linesAbove t)).Narrow := by
    rw [hide_eq hterminal]
    exact hnarrow
  obtain ⟨screen₃, hleads₃, honScreen, hsame₃⟩ := Session.leads_reveal
    ((congrArg SessionSettings.isTerminal hwritten).trans hterminal) (hroom.of_settings hwritten)
    hnarrow₂ hvacant₂.wellFormed (hshows₂.keeps.2.trans (by
      rw [hide_eq hterminal] at hhidden ⊢
      exact hhidden.columns_eq)) (hvacant₂.blankFrom.mono (Nat.le_succ _)).blankBehind
  rw [hrow₂] at honScreen hsame₃
  refine ⟨screen₃, hleads₂.trans hleads₃, honScreen, ?_, fun i column hi hcolumn => ?_⟩
  · exact (hsame₁.trans hsame₂).trans (hsame₃.mono (Nat.le_add_right _ _))
  · rw [hleads₃.columns_eq] at hcolumn
    rw [hsame₃ _ column (by omega), hholds₂ i column hi hcolumn]

/-! ### Any calls -/

theorem hasRoom_driven (hroom : s.HasRoom) (calls : Nat → SessionCall) (n : Nat) :
    (s.driven calls n).HasRoom :=
  hroom.of_settings (s.settings_driven calls n)

/-- A call that leaves the edit on the screen. -/
theorem OnScreen.leads_called (h : s.OnScreen screen top) (hterminal : s.isTerminal = true)
    (hroom : s.HasRoom) {c : SessionCall} (hc : c.KeepsEdit) (hbefore : s.Narrow)
    (hafter : (s.called c).Narrow) :
    ∃ screen' top', s.output.Leads screen (s.called c).output screen' ∧
      (s.called c).OnScreen screen' top' := by
  cases c with
  | feed =>
    obtain ⟨screen', hleads, hredrawn⟩ :=
      h.toStands.leads_feed hterminal hroom (fun _ => ⟨top, h⟩) hbefore hafter
    obtain ⟨top', honScreen⟩ := hredrawn.onScreen h
    exact ⟨screen', top', hleads, honScreen⟩
  | hide => exact hc.elim
  | reveal =>
    obtain ⟨screen', hleads, honScreen, -⟩ := h.leads_reveal hterminal hroom hbefore
    exact ⟨screen', screen.row, hleads, honScreen⟩
  | printAbove t =>
    obtain ⟨screen', hleads, honScreen, -⟩ :=
      h.toStands.leads_printAbove hterminal h.cursorRow_eq hroom hbefore hc
    exact ⟨screen', _, hleads, honScreen⟩
  | push more =>
    have halike : s.ShowsAlike (s.called (.push more)) := ⟨rfl, rfl, rfl⟩
    exact ⟨screen, top, .refl _ _, halike.onScreen h⟩

/-- **Any calls that leave the edit on the screen.** -/
theorem leads_driven {editor : Editor} {mode : RawMode} {input : Input} {output : Output}
    {prompt : Text} (hstart : start editor mode input output prompt = .ok s)
    (hterminal : s.isTerminal = true) (hroom : s.HasRoom)
    (hbelow : StartsBelow editor input output screen) {calls : Nat → SessionCall} {n : Nat}
    (hcalls : ∀ m < n, (calls m).KeepsEdit) (hnarrow : ∀ m ≤ n, (s.driven calls m).Narrow) :
    ∃ screen' top, output.Leads screen (s.driven calls n).output screen' ∧
      (s.driven calls n).OnScreen screen' top := by
  induction n with
  | zero =>
    obtain ⟨screen', hleads, honScreen, -⟩ :=
      leads_start hstart hterminal hbelow hroom (hnarrow 0 (Nat.le_refl 0))
    exact ⟨screen', screen.row, hleads, honScreen⟩
  | succ n ih =>
    obtain ⟨screen₁, top₁, hleads₁, honScreen₁⟩ :=
      ih (fun m hm => hcalls m (Nat.lt_succ_of_lt hm)) fun m hm => hnarrow m (Nat.le_succ_of_le hm)
    obtain ⟨screen₂, top₂, hleads₂, honScreen₂⟩ := honScreen₁.leads_called
      (isTerminal_driven hterminal calls n) (hasRoom_driven hroom calls n)
      (hcalls n (Nat.lt_succ_self n)) (hnarrow n (Nat.le_succ n)) (hnarrow (n + 1) (Nat.le_refl _))
    exact ⟨screen₂, top₂, hleads₁.trans hleads₂, honScreen₂⟩

/-! ### What is put in -/

theorem OnScreen.placedAt (h : s.OnScreen screen top) (hnone : s.editor.hinter = none) :
    (s.view true).PlacedAt screen top := by
  obtain ⟨hints, hplaced⟩ := h.placed
  rwa [view_of_no_hinter hnone] at hplaced

/-- A drawing that is placed further down, below some rows, with everything above as it was, has had
these rows put in. -/
theorem insertsRows_of_placedAt {v : LineView} {screen' : Screen} {rows : List Text}
    (h : v.PlacedAt screen top) (h' : v.PlacedAt screen' (top + rows.length))
    (hsame : screen.SameAbove screen' top) (hrows : screen'.HoldsRows top rows) :
    screen.InsertsRows screen' top rows where
  above := hsame
  inserted := hrows
  below row column hrow := by
    by_cases hcolumn : column < v.width
    · have hbefore := h.holdsBlock row column hrow (by rwa [h.columns_eq])
      have hafter := h'.holdsBlock (row + rows.length) column (by omega) (by rwa [h'.columns_eq])
      rw [hafter, hbefore, h.columns_eq, h'.columns_eq, blockCell_add]
    · rw [h.wellFormed.cell_of_columns_le _ (by rw [h.columns_eq]; omega),
        h'.wellFormed.cell_of_columns_le _ (by rw [h'.columns_eq]; omega)]
  row_eq := by
    rw [h'.row_eq, h.row_eq]
    omega
  column_eq := by rw [h'.column_eq, h.column_eq]

/-- **Text above the edit.** After any calls that leave the edit on the screen, writing a text above
it puts in the rows of the text where the edit begins: what is shown above stays, and the edit, with
its cursor, moves down. The line, the cursor and the history do not change. -/
theorem insertsRows_printAbove {editor : Editor} {mode : RawMode} {input : Input} {output : Output}
    {prompt : Text} (hstart : start editor mode input output prompt = .ok s)
    (hterminal : s.isTerminal = true) (hhinter : editor.hinter = none)
    (hroom : promptWidth prompt < s.columns) (hbelow : StartsBelow editor input output screen)
    {calls : Nat → SessionCall} {n : Nat} (hcalls : ∀ m < n, (calls m).KeepsEdit)
    (hdraws : ∀ m ≤ n, ((s.driven calls m).view true).DrawsAlone 1 ∧
      ((s.driven calls m).view true).usedWidth ≤ 65535)
    {t : Text} (ht : NarrowLines t)
    (haccepts : ((s.driven calls n).printAbove t).output.Accepts) :
    (∃ top,
      ((s.driven calls n).view true).PlacedAt ((s.driven calls n).replayed output screen) top ∧
      ((s.driven calls n).replayed output screen).InsertsRows
        (((s.driven calls n).printAbove t).replayed output screen) top (rowsAbove s.columns t)) ∧
      ((s.driven calls n).printAbove t).edit = (s.driven calls n).edit := by
  refine ⟨?_, edit_printAbove _ t⟩
  obtain ⟨hprompt, -, hhinter'⟩ := settings_start hstart hterminal
  have hroom' : s.HasRoom := by
    rw [HasRoom, show s.prompt = prompt from hprompt]
    exact hroom
  have hnarrow : ∀ m ≤ n, (s.driven calls m).Narrow := fun m hm =>
    ⟨(hdraws m hm).1, (hdraws m hm).1.inReach (hdraws m hm).2⟩
  have hterminal' := isTerminal_driven hterminal calls n
  have hsettings := s.settings_driven calls n
  have hnone : (s.driven calls n).editor.hinter = none :=
    ((congrArg SessionSettings.hinter hsettings).trans hhinter').trans hhinter
  obtain ⟨screen₁, top, hleads₁, honScreen₁⟩ :=
    leads_driven hstart hterminal hroom' hbelow hcalls hnarrow
  obtain ⟨screen₂, hleads₂, honScreen₂, hsame, hrows⟩ :=
    honScreen₁.toStands.leads_printAbove hterminal' honScreen₁.cursorRow_eq
      (hasRoom_driven hroom' calls n) (hnarrow n (Nat.le_refl n)) ht
  rw [replayed_eq (hleads₁.trans hleads₂) haccepts hbelow.reader_eq,
    replayed_eq hleads₁ (hleads₂.accepts haccepts) hbelow.reader_eq,
    ← show (s.driven calls n).columns = s.columns from congrArg SessionSettings.columns hsettings]
  have halike : ((s.driven calls n).printAbove t).view true = (s.driven calls n).view true := by
    rw [printAbove, reveal, hide_eq hterminal']
    split <;> rfl
  have hplaced := honScreen₁.placedAt hnone
  have hplaced' := honScreen₂.placedAt
    ((congrArg SessionSettings.hinter ((s.driven calls n).settings_printAbove t)).trans hnone)
  rw [halike] at hplaced'
  exact ⟨top, hplaced, insertsRows_of_placedAt hplaced hplaced' hsame hrows⟩

/-- Keys that fill a row of four columns behind a prompt of two and go on. -/
def logKeys : List UInt8 := Utf8.encode ['a', 'b', 'c'] ++ [0x02]

/-- A line is written above the edit before the last key is read. -/
def logCalls (m : Nat) : SessionCall := if m = 3 then .printAbove ['u', 'p', '\n'] else .feed

/-- A text of three lines, the first of which takes two rows and the second of which is empty, puts
in four rows above a line that takes two. -/
theorem insertsRows_printAbove_logged : ∃ s,
    start (.ofConfig ⟨true, false, 80⟩ (.ofColumns 4)) .ofPipe (.ofBytes logKeys true false none)
      (.fresh none) ['>', ' '] = .ok s ∧
    rowsAbove s.columns ['l', 'o', 'g', 'g', 'e', 'd', '\n', '\n', 'x', '\n'] =
      [['l', 'o', 'g', 'g'], ['e', 'd'], [], ['x']] ∧
    (∃ top, ((s.driven logCalls 5).view true).PlacedAt
        ((s.driven logCalls 5).replayed (.fresh none) (.blank 4)) top ∧
      ((s.driven logCalls 5).replayed (.fresh none) (.blank 4)).InsertsRows
        (((s.driven logCalls 5).printAbove
          ['l', 'o', 'g', 'g', 'e', 'd', '\n', '\n', 'x', '\n']).replayed (.fresh none) (.blank 4))
        top (rowsAbove s.columns ['l', 'o', 'g', 'g', 'e', 'd', '\n', '\n', 'x', '\n'])) ∧
    ((s.driven logCalls 5).printAbove
      ['l', 'o', 'g', 'g', 'e', 'd', '\n', '\n', 'x', '\n']).edit = (s.driven logCalls 5).edit := by
  obtain ⟨s, hstart, hterminal, hroom, hcalls, hdraws, hrows, haccepts⟩ : ∃ s,
      start (.ofConfig ⟨true, false, 80⟩ (.ofColumns 4)) .ofPipe (.ofBytes logKeys true false none)
        (.fresh none) ['>', ' '] = .ok s ∧ s.isTerminal = true ∧
      promptWidth ['>', ' '] < s.columns ∧ (∀ m < 5, (logCalls m).KeepsEdit) ∧
      (∀ m ≤ 5, (((s.driven logCalls m).view true).hinter.isNone = true ∧
        PrintsAlone 1 ((s.driven logCalls m).view true).prompt ∧
        OwnClusters ((s.driven logCalls m).view true).line.text ∧
        (((s.driven logCalls m).view true).masked = true ∨
          PrintsAlone 1 ((s.driven logCalls m).view true).line.text)) ∧
        ((s.driven logCalls m).view true).usedWidth ≤ 65535) ∧
      rowsAbove s.columns ['l', 'o', 'g', 'g', 'e', 'd', '\n', '\n', 'x', '\n'] =
        [['l', 'o', 'g', 'g'], ['e', 'd'], [], ['x']] ∧
      ((s.driven logCalls 5).printAbove
        ['l', 'o', 'g', 'g', 'e', 'd', '\n', '\n', 'x', '\n']).output.Accepts :=
    ⟨_, rfl, rfl, by decide, by decide, by decide +kernel, by decide +kernel, by decide +kernel⟩
  exact ⟨s, hstart, hrows, insertsRows_printAbove hstart hterminal rfl hroom
    (startsBlank_blank (by decide) rfl _ _).startsBelow hcalls
    (fun m hm => ⟨LineView.drawsAlone_of_isNone (hdraws m hm).1, (hdraws m hm).2⟩)
    (by decide +kernel) haccepts⟩

end Session

end Typeline
