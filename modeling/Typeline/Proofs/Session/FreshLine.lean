import Typeline.Proofs.Session.Above
import Typeline.Proofs.Session.Afterwards
import Typeline.Proofs.Session.Pairs

/-!
# The end of a session on the screen

When a session is finished the cursor of the terminal goes down one row. Whether anything is drawn
from there on depends on where the cursor was. On a single row nothing is. Over several rows nothing
is if the cursor was in the last row of the line, which is where the key that enters the line takes
it first. Nothing else does: a session that is interrupted or given up with the cursor further up
leaves it on a row of the line, and what is written next is written over the line.

## Main definitions

* `LineView.CursorLast` : the cursor stands in the last row of the line.
* `Session.EndsBelow` : what the end of a session makes of the screen.

## Main results

* `LineView.ShownFrom.blankFrom_iff` : when nothing is drawn below the cursor.
* `Session.endsBelow_finish` : what finishing a session makes of the screen.
-/

namespace Typeline

namespace LineView

/-- The cursor stands in the last row in which something of the line is shown, or below it. On a
single row it always does. -/
def CursorLast (v : LineView) : Prop :=
  v.multiline = true → (v.usedWidth - 1) / v.width ≤ v.cursorWidth / v.width

instance (v : LineView) : Decidable v.CursorLast := inferInstanceAs (Decidable (_ → _))

theorem cursorLast_of_single {v : LineView} (h : v.multiline = false) : v.CursorLast :=
  fun hmulti => absurd (h.symm.trans hmulti) Bool.false_ne_true

theorem cursorLast_of_after_eq_nil {v : LineView} (h : v.line.after = []) : v.CursorLast := by
  intro _
  rw [cursorWidth_of_after_eq_nil h]
  exact Nat.div_le_div_right (Nat.sub_le _ _)

/-- What a drawing shows does not get further than the row of the cursor if that is the last one. -/
theorem DrawsAlone.length_drawnText_le_iff {v : LineView} (h : v.DrawsAlone 1)
    (hroom : promptWidth v.prompt < v.width) :
    v.drawnText.length ≤ (v.drawnRow + 1) * v.width ↔ v.CursorLast := by
  cases hmulti : v.multiline with
  | false =>
    have hfits := (h.row_spec hroom).1
    rw [Screen.length_cellsOf_narrow h.narrow_rowText] at hfits
    rw [h.drawnRow_of_room hmulti hroom, drawnText_of_single hmulti, Nat.zero_add, Nat.one_mul]
    exact iff_of_true hfits (cursorLast_of_single hmulti)
  | true =>
    have hwidth := v.width_pos
    -- A hint adds no row.
    have hlast :
        (v.usedWidth + v.shownHint.length - 1) / v.width = (v.usedWidth - 1) / v.width := by
      have hnone : (v.usedWidth + 0 - 1) / v.width = _ := last_row_eq hwidth (Or.inl rfl)
      exact (last_row_eq hwidth h.hint_fits).trans hnone.symm
    have hpos : 0 < (v.cursorWidth / v.width + 1) * v.width := Nat.mul_pos (Nat.succ_pos _) hwidth
    have hends : (v.usedWidth + v.shownHint.length - 1) / v.width ≤ v.cursorWidth / v.width ↔
        v.usedWidth + v.shownHint.length - 1 < (v.cursorWidth / v.width + 1) * v.width :=
      Nat.lt_succ_iff.symm.trans (Nat.div_lt_iff_lt_mul hwidth)
    rw [drawnRow_of_multiline hmulti, h.blockCursorRow_eq hroom, drawnText_of_multiline hmulti,
      h.length_shownText, CursorLast, ← hlast, forall_prop_of_true hmulti, hends]
    omega

/-- **Below the cursor.** Nothing is drawn there if and only if the cursor stands in the last row of
the line. -/
theorem ShownFrom.blankFrom_iff {v : LineView} {s : Screen} {top : Nat} (hshown : v.ShownFrom s top)
    (h : v.DrawsAlone 1) (hroom : promptWidth v.prompt < v.width) :
    s.BlankFrom (s.row + 1) ↔ v.CursorLast := by
  rw [← h.length_drawnText_le_iff hroom, hshown.row_eq]
  have hrow : top + v.drawnRow + 1 - top = v.drawnRow + 1 := by omega
  constructor
  · -- Otherwise the first character of the next row would be seen.
    intro hblank
    by_contra hmore
    have hseen : blockCell v.width top v.drawnText (top + v.drawnRow + 1) 0 ≠ .blank :=
      blockCell_ne_blank (by omega) (by rw [hrow]; omega)
    have hheld := hshown.holdsBlock (top + v.drawnRow + 1) 0 (by omega)
      (hshown.columns_eq ▸ v.width_pos)
    rw [hshown.columns_eq] at hheld
    exact hseen (hheld.symm.trans (hblank _ 0 (Nat.le_refl _)))
  · intro hle
    exact hshown.blankFrom (by omega) (by rwa [hrow])

end LineView

namespace Session

variable {s : Session} {screen : Screen} {top : Nat}

/-- Only one key enters the line. -/
theorem act_eq_line {k : Key} {t : Text} (h : (s.act k).1 = some (.line t)) : k = .enter := by
  cases k with
  | enter => rfl
  | deleteOrEnd =>
    rw [act] at h
    split at h <;> exact absurd h (by simp)
  | _ => exact absurd h (by simp [act])

/-- Over several rows the cursor goes to the end of a line that is entered. -/
theorem after_entered {p : SessionDisplay} (hmulti : p.settings.config.multiline = true)
    (line : Line) : (p.entered line).after = [] := by
  rw [SessionDisplay.entered, if_pos hmulti, Line.moveEnd]
  split
  · next hend => simpa using hend
  · rfl

/-- The key that enters the line leaves the cursor in its last row. -/
theorem cursorLast_of_line (hterminal : s.isTerminal = true) {t : Text}
    (h : s.feed.1 = .done (.line t)) (hints : Bool) : (s.feed.2.view hints).CursorLast := by
  cases hmulti : s.editor.config.multiline with
  | false =>
    refine LineView.cursorLast_of_single ?_
    have hsettings := congrArg SessionSettings.config (settings_feed s)
    exact (congrArg EditorConfig.multiline hsettings).trans hmulti
  | true =>
    refine LineView.cursorLast_of_after_eq_nil ?_
    change s.feed.2.shownLine.after = []
    rw [feed_of_isTerminal hterminal] at h ⊢
    split at h
    · next k hkey =>
      obtain ⟨hcomplete, hback⟩ := chain_complete True True s.afterReading k
      have hsettings := hcomplete.settings_eq
      cases hcompleted : s.afterReading.complete k with
      | mk k' u =>
        rw [hcompleted] at hback hsettings
        cases k' with
        | none =>
          rw [press_of_none hcompleted] at h
          exact absurd h (by simp)
        | some k' =>
          rw [press_of_complete hcompleted] at h ⊢
          have hevent : (u.act k').1 = some (.line t) := by
            rw [handled] at h
            cases hacted : (u.act k').1 with
            | none =>
              rw [hacted] at h
              exact absurd h (by simp)
            | some event =>
              rw [hacted] at h
              exact congrArg some (FeedResult.done.inj h)
          obtain rfl := act_eq_line hevent
          have hidle : u.enter.2.cycle = .idle :=
            (congrArg SessionEdit.cycle u.edit_enter).trans (hback (by simp)).2.1
          change u.enter.2.shownLine.after = []
          rw [shownLine_of_idle hidle,
            show u.enter.2.line = u.display.entered u.line from
              congrArg SessionEdit.line u.edit_enter]
          exact after_entered ((congrArg (fun p => p.config.multiline) hsettings).trans hmulti) _
    · exact absurd h (by simp)
    · exact absurd h (by simp)
    · exact absurd h (by simp)

/-- Finishing a session takes the cursor down one row and draws nothing. -/
theorem leads_finish (hterminal : s.isTerminal = true) (hfinished : s.finished = false)
    (screen : Screen) : s.output.Leads screen s.finish.output
      (screen.moveTo (screen.row + 1) screen.column) := by
  rw [finish_of_isTerminal hterminal, if_neg (by rw [hfinished]; exact Bool.false_ne_true)]
  exact .of_write s.output screen.shows_lineFeed

/-- A call enters the line. -/
def Enters (s : Session) (c : SessionCall) : Prop := c = .feed ∧ ∃ t, s.feed.1 = .done (.line t)

/-- What the end of a session makes of the screen that shows a line. The cursor goes down one row,
and all that is drawn stays as it was. From there on nothing is drawn, and no text can be read, if
and only if the cursor stood in the last row of the line. -/
structure EndsBelow (s : Session) (before after : Screen) : Prop where
  row_eq : after.row = before.row + 1
  cell_eq : ∀ row column, after.cell row column = before.cell row column
  blankFrom_iff : after.BlankFrom after.row ↔ (s.view true).CursorLast
  line_eq : (s.view true).CursorLast → ∀ row, after.row ≤ row → after.line row = []

theorem OnScreen.endsBelow (h : s.OnScreen screen top) (hroom : s.HasRoom) (hnarrow : s.Narrow) :
    s.EndsBelow screen (screen.moveTo (screen.row + 1) screen.column) := by
  obtain ⟨hints, hplaced⟩ := h.placed
  have hbelow : screen.BlankFrom (screen.row + 1) ↔ (s.view true).CursorLast :=
    hplaced.toShownFrom.blankFrom_iff (hnarrow.drawsAlone hints)
      (by rw [width_eq hroom]; exact hroom)
  have hiff : (screen.moveTo (screen.row + 1) screen.column).BlankFrom (screen.row + 1) ↔
      (s.view true).CursorLast := by
    rw [← hbelow]
    simp only [Screen.BlankFrom, Screen.cell_moveTo]
  refine ⟨rfl, Screen.cell_moveTo _ _ _, hiff, fun hlast row hrow => ?_⟩
  exact (hplaced.wellFormed.moveTo _ _).line_of_blank (hiff.mpr hlast row · hrow)

/-- **The end of a session.** After any calls that leave the edit on the screen, finishing the
session takes the cursor down one row, which is a fresh one if and only if the cursor stood in the
last row of the line. If the last key entered the line it did. -/
theorem endsBelow_finish {editor : Editor} {mode : RawMode} {input : Input} {output : Output}
    {prompt : Text} (hstart : start editor mode input output prompt = .ok s)
    (hterminal : s.isTerminal = true) (hroom : s.HasRoom)
    (hbelow : StartsBelow editor input output screen) {calls : Nat → SessionCall} {n : Nat}
    (hcalls : ∀ m < n, (calls m).KeepsEdit) (hnarrow : ∀ m ≤ n, (s.driven calls m).Narrow)
    (haccepts : (s.driven calls n).finish.output.Accepts) :
    (s.driven calls n).EndsBelow ((s.driven calls n).replayed output screen)
        ((s.driven calls n).finish.replayed output screen) ∧
      ∀ m, n = m + 1 → (s.driven calls m).Enters (calls m) →
        ((s.driven calls n).view true).CursorLast := by
  constructor
  · obtain ⟨screen', top, hleads, honScreen⟩ :=
      leads_driven hstart hterminal hroom hbelow hcalls hnarrow
    have hfinish := leads_finish (isTerminal_driven hterminal calls n)
      ((s.finished_driven calls n).trans (finished_start hstart)) screen'
    rw [replayed_eq (hleads.trans hfinish) haccepts hbelow.reader_eq,
      replayed_eq hleads (hfinish.accepts haccepts) hbelow.reader_eq]
    exact honScreen.endsBelow (hasRoom_driven hroom calls n) (hnarrow n (Nat.le_refl n))
  · rintro m rfl ⟨hfeed, t, hline⟩
    change (((s.driven calls m).called (calls m)).view true).CursorLast
    rw [hfeed]
    exact cursorLast_of_line (isTerminal_driven hterminal calls m) hline true

/-- Keys that type a line which takes two rows of four columns behind a prompt of two, and go back
to its start. -/
def backKeys : List UInt8 := Utf8.encode ['a', 'b', 'c'] ++ [0x01]

/-- A line of two rows is entered with the cursor in the first of them. -/
theorem endsBelow_finish_entered : ∃ s,
    start (.ofConfig ⟨true, false, 80⟩ (.ofColumns 4)) .ofPipe
      (.ofBytes (backKeys ++ [0x0D]) true false none) (.fresh none) ['>', ' '] = .ok s ∧
    (s.driven (fun _ => .feed) 4).feed.1 = .done (.line ['a', 'b', 'c']) ∧
    (s.driven (fun _ => .feed) 5).EndsBelow
      ((s.driven (fun _ => .feed) 5).replayed (.fresh none) (.blank 4))
      ((s.driven (fun _ => .feed) 5).finish.replayed (.fresh none) (.blank 4)) ∧
    ((s.driven (fun _ => .feed) 5).view true).CursorLast := by
  obtain ⟨s, hstart, hterminal, hroom, hdraws, hline, haccepts⟩ : ∃ s,
      start (.ofConfig ⟨true, false, 80⟩ (.ofColumns 4)) .ofPipe
        (.ofBytes (backKeys ++ [0x0D]) true false none) (.fresh none) ['>', ' '] = .ok s ∧
      s.isTerminal = true ∧ s.HasRoom ∧
      (∀ m ≤ 5, (s.driven (fun _ => .feed) m).PlainlyNarrow) ∧
      (s.driven (fun _ => .feed) 4).feed.1 = .done (.line ['a', 'b', 'c']) ∧
      (s.driven (fun _ => .feed) 5).finish.output.Accepts :=
    ⟨_, rfl, rfl, by decide, by decide +kernel, by decide +kernel, by decide +kernel⟩
  have hcalls : ∀ m < 5, SessionCall.feed.KeepsEdit := fun _ _ => trivial
  obtain ⟨hends, hlast⟩ := endsBelow_finish hstart hterminal hroom
    (startsBlank_blank (by decide) rfl _ _).startsBelow hcalls (fun m hm => (hdraws m hm).narrow)
    haccepts
  exact ⟨s, hstart, hline, hends, hlast 4 rfl ⟨rfl, _, hline⟩⟩

/-- So there are sessions that end on a row of the line. -/
theorem exists_not_blankFrom_finish : ¬∀ (editor : Editor) (mode : RawMode) (input : Input)
    (output : Output) (prompt : Text) (s : Session) (screen : Screen) (n : Nat),
    start editor mode input output prompt = .ok s → s.isTerminal = true → s.HasRoom →
      StartsBlank editor input output screen →
      (∀ m ≤ n, (s.driven (fun _ => .feed) m).Narrow) →
      (s.driven (fun _ => .feed) n).finish.output.Accepts →
        ((s.driven (fun _ => .feed) n).finish.replayed output screen).BlankFrom
          ((s.driven (fun _ => .feed) n).finish.replayed output screen).row := by
  intro h
  obtain ⟨s, hstart, hterminal, hroom, hdraws, haccepts, hshown⟩ : ∃ s,
      start (.ofConfig ⟨true, false, 80⟩ (.ofColumns 4)) .ofPipe
        (.ofBytes (backKeys ++ [0x03]) true false none) (.fresh none) ['>', ' '] = .ok s ∧
      s.isTerminal = true ∧ s.HasRoom ∧
      (∀ m ≤ 5, (s.driven (fun _ => .feed) m).PlainlyNarrow) ∧
      (s.driven (fun _ => .feed) 5).finish.output.Accepts ∧
      ((s.driven (fun _ => .feed) 5).finish.replayed (.fresh none) (.blank 4)).cell
        ((s.driven (fun _ => .feed) 5).finish.replayed (.fresh none) (.blank 4)).row 0 =
          .glyph ['c'] :=
    ⟨_, rfl, rfl, by decide, by decide +kernel, by decide +kernel, by decide +kernel⟩
  have hblank := h _ _ _ _ _ s _ 5 hstart hterminal hroom (startsBlank_blank (by decide) rfl _ _)
    (fun m hm => (hdraws m hm).narrow) haccepts _ 0
    (Nat.le_refl _)
  rw [hblank] at hshown
  exact Cell.noConfusion hshown

end Session

end Typeline
