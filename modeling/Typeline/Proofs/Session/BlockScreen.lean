import Typeline.Proofs.Edit.Block
import Typeline.Proofs.Session.Tracking

/-!
# The screen of a session over several rows

A session over several rows draws its line as a block. Each drawing erases the last one, of which it
remembers the number of rows and the row of the cursor. Whatever keys are read, however the line
grows and shrinks, the terminal shows the block of the line and nothing else. Only clearing the
screen moves the block, to the first row.

The characters that are shown have to be clusters of their own that take one column, and hints have
to be silent about the empty line, since at the start only the prompt is written.

## Main results

* `Session.blockShown_fed` : after any keys, the screen shows the line as a block.
-/

namespace Typeline

/-- The prompt, written to a blank screen, is the block of the empty line. -/
theorem LineView.DrawsAlone.blockShown_prompt {v : LineView} (h : v.DrawsAlone 1)
    (hroom : promptWidth v.prompt < v.width) (hline : v.line.before = [] ∧ v.line.after = [])
    (hhint : ∀ hinter, v.hinter = some hinter → hinter [] = none) {s : Screen} (hfresh : s.Fresh)
    (hcolumns : s.columns = v.width) :
    s.Shows v.prompt (s.putAll v.prompt) ∧ v.BlockShown (s.putAll v.prompt) s.row ∧
      DrawState.initial.Covers (s.putAll v.prompt) s.row := by
  have htext : v.line.text = [] := by
    rw [Line.text, hline.1, hline.2]
    rfl
  have hshown : v.shownText v.line.text = v.prompt := by
    rw [htext]
    exact shownText_of_empty htext hhint
  have hnarrow := h.narrow_shownText
  rw [hshown] at hnarrow
  have hlength : promptWidth v.prompt = v.prompt.length := by
    rw [h.promptWidth_eq, Screen.length_cellsOf_narrow hnarrow]
  have hcursor : v.cursorWidth = promptWidth v.prompt := by
    rw [h.cursorWidth_eq, hline.1]
    rfl
  have hroom' : s.column + (Screen.cellsOf v.prompt).length < s.columns := by
    rw [hfresh.column_eq, ← h.promptWidth_eq]
    omega
  have hblock : v.BlockShown (s.putAll v.prompt) s.row := by
    refine ⟨fun row column hcolumn => ?_, ?_, ?_⟩
    · rw [hshown, hfresh.cell_putAll hnarrow (by omega), hcolumns]
    · rw [hfresh.row_putAll hnarrow, hcolumns, Nat.div_eq_of_lt (by omega), hcursor,
        Nat.div_eq_of_lt hroom]
    · obtain ⟨-, hcolumn⟩ := Screen.cursor_putAll_of_room (fun c hc => Or.inl (hnarrow c hc))
        hfresh.wrapPending_eq (Nat.le_of_lt hroom') hroom'
      rw [hcolumn, hfresh.column_eq, ← h.promptWidth_eq, hcursor, Nat.mod_eq_of_lt hroom,
        Nat.zero_add]
  refine ⟨(Screen.shows_putAll hfresh.afterJoiner_eq h.prompt.charWidth_pos).1, hblock, ?_⟩
  refine hblock.covers (hfresh.wellFormed.putAll _) (by rw [Screen.columns_putAll, hcolumns]) ?_
    (Nat.le_refl 1) ?_ (by decide)
  · rw [hcursor, Nat.div_eq_of_lt hroom]
    rfl
  · rw [hshown, ← hlength]
    change _ ≤ 1 * v.width
    omega

namespace Session

/-- Keeping track of the block of the line. -/
def blockTracking (p : SessionSettings) (hrows : p.config.multiline = true)
    (hroom : promptWidth p.prompt < p.columns)
    (hhint : ∀ hinter, p.hinter = some hinter → hinter [] = none) : Tracking p where
  Allowed line := (p.view line true).DrawsAlone 1 ∧ (p.view line true).usedWidth ≤ 65535
  Ready d screen := screen.WellFormed ∧ screen.columns = p.columns ∧ ∃ top, d.Covers screen top
  Drawn line d screen := screen.WellFormed ∧ screen.columns = p.columns ∧
    ∃ top, d.Covers screen top ∧ (p.view line true).BlockShown screen top
  ready := by
    rintro line d screen ⟨hwell, hcolumns, top, hcovers, -⟩
    exact ⟨hwell, hcolumns, top, hcovers⟩
  prompt := by
    rintro capacity screen hfresh hcolumns ⟨hdraws, -⟩
    have hwidth := width_view hroom (.empty capacity) true
    obtain ⟨hshows, hblock, hcovers⟩ := hdraws.blockShown_prompt (by rwa [hwidth]) ⟨rfl, rfl⟩ hhint
      hfresh (by rw [hwidth, hcolumns])
    exact ⟨_, hshows, hfresh.wellFormed.putAll _, by rw [Screen.columns_putAll, hcolumns],
      screen.row, hcovers, hblock⟩
  redraw := by
    rintro line d screen ⟨hwell, hcolumns, top, hcovers⟩ ⟨hdraws, hmax⟩
    have hwidth := width_view hroom line true
    have hdraw : (p.view line true).draw d .all = (p.view line true).drawRows d .all :=
      if_pos hrows
    obtain ⟨screen', hshows, hwell', hcolumns', hcovers', hblock⟩ :=
      hdraws.shows_drawRows (by rwa [hwidth]) hmax hwell (by rw [hwidth, hcolumns]) hcovers
    rw [hdraw]
    exact ⟨screen', hshows, hwell', hcolumns'.trans hwidth, top, hcovers', hblock⟩
  type := by
    intro line line' d screen c _ _ _ _ _ _ hrow
    rw [hrows] at hrow
    exact Bool.noConfusion hrow
  clear := by
    rintro d screen ⟨hwell, hcolumns, -⟩
    have hshows := screen.shows_clear
    refine ⟨_, hshows, (hwell.moveTo 0 0).eraseDisplay 2, hshows.keeps.2.trans hcolumns, 0, ?_⟩
    exact ⟨Nat.one_pos, Nat.le_refl 1, by decide, rfl, fun _ _ _ => Screen.cell_eraseDisplay _ _ _,
      fun _ _ _ => Screen.cell_eraseDisplay _ _ _⟩

/-- **The screen of a session over several rows.** After any keys that do not end the edit,
replaying all that has been written since the start on a screen that was blank shows prompt, line
and hint as a block, with the cursor in its place in the block, and nothing else. -/
theorem blockShown_fed {editor : Editor} {mode : RawMode} {input : Input} {output : Output}
    {prompt : Text} {s : Session} (hstart : start editor mode input output prompt = .ok s)
    (hterminal : s.isTerminal = true) (hrows : editor.config.multiline = true)
    (hroom : promptWidth prompt < s.columns)
    (hhint : ∀ hinter, editor.hinter = some hinter → hinter [] = none)
    {screen : Screen} (hblank : StartsBlank editor input output screen) {n : Nat}
    (hmore : ∀ m < n, ∀ e, (s.fed m).feed.1 ≠ .done e)
    (hdraws : ∀ m ≤ n, ((s.fed m).view true).DrawsAlone 1 ∧
      ((s.fed m).view true).usedWidth ≤ 65535)
    (haccepts : (s.fed n).output.Accepts) :
    ∃ top, ((s.fed n).view true).BlockShown
      (screen.feedText ((s.fed n).output.since output)) top := by
  obtain ⟨hprompt, hconfig, hhinter⟩ := settings_start hstart hterminal
  let k := blockTracking s.settings (by rw [hconfig, hrows]) (by rwa [hprompt]) (by rwa [hhinter])
  have hallowed (m : Nat) (hm : m ≤ n) : k.Allowed (s.fed m).shownLine := by
    have hdraw := hdraws m hm
    rwa [view_fed] at hdraw
  obtain ⟨-, -, top, -, hblock⟩ :=
    Tracking.drawn_fed hstart hterminal k hblank hmore hallowed haccepts
  rw [view_fed]
  exact ⟨top, hblock⟩

/-- Keys that fill a row of four columns behind a prompt of two, go on, and go back. -/
def rowKeys : List UInt8 := Utf8.encode ['a', 'b', 'c'] ++ [0x02, 0x7F]

/-- While these keys are read, the terminal shows the block of the line. -/
theorem blockShown_fed_rowKeys : ∃ s,
    start (.ofConfig ⟨true, false, 80⟩ (.ofColumns 4)) .ofPipe (.ofBytes rowKeys true false none)
      (.fresh none) ['>', ' '] = .ok s ∧
    ∃ top, ((s.fed 5).view true).BlockShown
      ((Screen.blank 4).feedText ((s.fed 5).output.since (.fresh none))) top := by
  obtain ⟨s, hstart, hterminal, hroom, hmore, hdraws, haccepts⟩ : ∃ s,
      start (.ofConfig ⟨true, false, 80⟩ (.ofColumns 4)) .ofPipe (.ofBytes rowKeys true false none)
        (.fresh none) ['>', ' '] = .ok s ∧ s.isTerminal = true ∧
      promptWidth ['>', ' '] < s.columns ∧ (∀ m < 5, (s.fed m).feed.1 = .more) ∧
      (∀ m ≤ 5, (((s.fed m).view true).hinter.isNone = true ∧
        PrintsAlone 1 ((s.fed m).view true).prompt ∧
        OwnClusters ((s.fed m).view true).line.text ∧
        (((s.fed m).view true).masked = true ∨
          PrintsAlone 1 ((s.fed m).view true).line.text)) ∧
        ((s.fed m).view true).usedWidth ≤ 65535) ∧ (s.fed 5).output.Accepts :=
    ⟨_, rfl, rfl, by decide, by decide +kernel, by decide +kernel, by decide +kernel⟩
  refine ⟨s, hstart, blockShown_fed hstart hterminal rfl hroom ?_
    (startsBlank_blank (by decide) rfl _ _) (fun m hm e hdone => ?_) (fun m hm => ?_) haccepts⟩
  · exact fun hinter hsome => absurd hsome (Option.some_ne_none hinter).symm
  · rw [hmore m hm] at hdone
    exact absurd hdone (by simp)
  · exact ⟨LineView.drawsAlone_of_isNone (hdraws m hm).1, (hdraws m hm).2⟩

end Session

end Typeline
