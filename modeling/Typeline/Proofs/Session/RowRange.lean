import Typeline.Proofs.Edit.RowWindow
import Typeline.Proofs.Session.Feed

/-!
# Sessions on a single row and the range of their numbers

A session on a single row draws the line after every key that changes it, or writes the character
that was typed at its end. In both cases the last line that was drawn is the one that is shown, and
so all numbers of columns stayed in range if and only if no line was shown that overruns the row,
whatever keys were read and however the edit ended.

## Main results

* `Session.inRange_act_iff` : one action.
* `Session.inRange_fed_iff` : any keys.
-/

namespace Typeline

namespace Session

/-- The line that is shown overruns the row. -/
def Overruns (s : Session) : Prop := (s.view true).Overruns

instance (s : Session) : Decidable s.Overruns := inferInstanceAs (Decidable (LineView.Overruns _))

theorem overruns_congr {s t : Session} (settings : t.settings = s.settings)
    (line : t.shownLine = s.shownLine) : t.Overruns ↔ s.Overruns := by
  rw [Overruns, Overruns, view_eq, view_eq, settings, line]

theorem inRange_refreshWith_iff {s : Session} (hrow : s.editor.config.multiline = false)
    (mode : RefreshMode) (hints : Bool) :
    (s.refreshWith mode hints).inRange = true ↔ s.inRange = true ∧ ¬s.Overruns := by
  have hdraw : (s.refreshWith mode hints).inRange =
      (s.inRange && ((s.view hints).drawRow s.drawState mode).inRange) := by
    change (s.inRange && ((s.view hints).draw s.drawState mode).inRange) = _
    rw [LineView.draw, if_neg (by rw [view, hrow]; exact Bool.false_ne_true)]
  rw [hdraw, Bool.and_eq_true, LineView.inRange_drawRow_iff]
  rfl

/-- A line whose cursor stands at its end fits however it is scrolled. -/
theorem not_overruns_of_after_eq_nil {s : Session} (h : s.shownLine.after = []) : ¬s.Overruns := by
  intro hover
  refine hover.1 ?_
  change isBoundary s.shownLine.before s.shownLine.after = true
  rw [h]
  exact isBoundary_nil_right _

/-- One action leaves the numbers in range if the line that is then shown does not overrun. -/
theorem inRange_act_iff {ends clears : Prop} {s t : Session}
    (hrow : s.editor.config.multiline = false)
    (h : Acts ends clears s t) (hshown : s.inRange = true → ¬s.Overruns) :
    t.inRange = true ↔ s.inRange = true ∧ ¬t.Overruns := by
  cases h with
  | rest same line =>
    rw [overruns_congr (congrArg SessionDisplay.settings same) line,
      show t.inRange = s.inRange from congrArg SessionDisplay.inRange same]
    exact ⟨fun hrange => ⟨hrange, hshown hrange⟩, And.left⟩
  | @redraw t hints same shown =>
    have hconfig : t.editor.config = s.editor.config :=
      congrArg (fun d => d.settings.config) same
    have hrange : t.inRange = s.inRange := congrArg SessionDisplay.inRange same
    rw [inRange_refreshWith_iff (by rw [hconfig, hrow]), hrange]
    rfl
  | @ring t same line =>
    have hover : t.ring.Overruns ↔ s.Overruns :=
      overruns_congr (congrArg SessionDisplay.settings same) line
    have hrange : t.ring.inRange = s.inRange := congrArg SessionDisplay.inRange same
    rw [hover, hrange]
    exact ⟨fun hrange => ⟨hrange, hshown hrange⟩, And.left⟩
  | @type c line idle insert plain =>
    have hend : s.line.atEnd = true := by
      simp only [isPlainInsertion, Bool.and_eq_true] at plain
      exact plain.1.1.1.1
    have hline : (s.typed c line).shownLine = line := shownLine_of_idle idle
    have hover : ¬(s.typed c line).Overruns := not_overruns_of_after_eq_nil
      (by rw [hline, (Line.insert_of_atEnd insert hend).2])
    exact ⟨fun hrange => ⟨hrange, hover⟩, And.left⟩
  | clear request =>
    rw [inRange_refreshWith_iff (s := s.cleared) hrow]
    rfl

/-- One key leaves the numbers in range if the line that is then shown does not overrun. -/
theorem inRange_feed_iff {s : Session} (hrow : s.editor.config.multiline = false)
    (hshown : s.inRange = true → ¬s.Overruns) :
    s.feed.2.inRange = true ↔ s.inRange = true ∧ ¬s.feed.2.Overruns := by
  by_cases hterminal : s.isTerminal = true
  · have hchain := feed_chain hterminal
    have hlast := hchain.settings_eq
    -- Up to any action of the chain, only the lines before and after the key have been shown.
    have hprefix : ∀ t, Chain (∃ e, s.feed.1 = .done e) (s.reading = .key .clearScreen) s.shownLine
        s.feed.2.shownLine s t →
        (t.inRange = true → s.inRange = true ∧ ¬t.Overruns) ∧
          (s.inRange = true → ¬s.feed.2.Overruns → t.inRange = true) := by
      intro t ht
      induction ht with
      | refl => exact ⟨fun hrange => ⟨hrange, hshown hrange⟩, fun hrange _ => hrange⟩
      | @tail t u htail step ih =>
        have hsettings : t.settings = s.settings := Chain.settings_eq htail
        have hconfig : t.editor.config = s.editor.config :=
          congrArg SessionSettings.config hsettings
        have hstep := inRange_act_iff (by rw [hconfig, hrow]) step.1 fun hrange => (ih.1 hrange).2
        refine ⟨fun hrange => ?_, fun hrange hover => ?_⟩
        · obtain ⟨ht, hu⟩ := hstep.mp hrange
          exact ⟨(ih.1 ht).1, hu⟩
        · refine hstep.mpr ⟨ih.2 hrange hover, ?_⟩
          have hu : u.settings = s.settings := step.1.settings_eq.trans hsettings
          rcases step.2 with hline | hline
          · rw [overruns_congr hu hline]
            exact hshown hrange
          · rwa [overruns_congr (hu.trans hlast.symm) hline]
    obtain ⟨hin, hout⟩ := hprefix _ hchain
    exact ⟨hin, fun h => hout h.1 h.2⟩
  · obtain ⟨hdisplay, hline⟩ := feed_of_not_isTerminal hterminal
    rw [overruns_congr (congrArg SessionDisplay.settings hdisplay) hline,
      show s.feed.2.inRange = s.inRange from congrArg SessionDisplay.inRange hdisplay]
    exact ⟨fun hrange => ⟨hrange, hshown hrange⟩, And.left⟩

/-- **Range of a session on a single row.** After any keys all numbers of columns stayed in range
if and only if none of the lines that were shown overruns the row: none had its cursor inside of a
cluster that scrolling took off with more columns than were counted. -/
theorem inRange_fed_iff {editor : Editor} {mode : RawMode} {input : Input} {output : Output}
    {prompt : Text} {s : Session} (hstart : start editor mode input output prompt = .ok s)
    (hrow : editor.config.multiline = false) (n : Nat) :
    (s.fed n).inRange = true ↔ ∀ m ≤ n, ¬((s.fed m).view true).Overruns := by
  have hfirst : s.inRange = true ∧ s.shownLine.after = [] ∧ s.editor.config = editor.config := by
    rcases start_eq_ok hstart with rfl | rfl <;> exact ⟨rfl, rfl, rfl⟩
  obtain ⟨hrange, hempty, hconfig⟩ := hfirst
  induction n with
  | zero =>
    refine iff_of_true hrange fun m hm => ?_
    rw [Nat.le_zero.mp hm]
    exact not_overruns_of_after_eq_nil hempty
  | succ n ih =>
    have hsingle : (s.fed n).editor.config.multiline = false := by
      have hsettings : (s.fed n).editor.config = s.editor.config :=
        congrArg SessionSettings.config (settings_fed s n)
      rw [hsettings, hconfig, hrow]
    rw [show s.fed (n + 1) = (s.fed n).feed.2 from rfl,
      inRange_feed_iff hsingle fun hin => ih.mp hin n (Nat.le_refl n)]
    constructor
    · rintro ⟨hbefore, hlast⟩ m hm
      rcases Nat.lt_or_eq_of_le hm with hm | rfl
      · exact ih.mp hbefore m (Nat.le_of_lt_succ hm)
      · exact hlast
    · intro hall
      exact ⟨ih.mpr fun m hm => hall m (Nat.le_succ_of_le hm), hall (n + 1) (Nat.le_refl _)⟩

/-- Keys that type a letter between two halves of a flag and delete it. -/
def flagKeys : List UInt8 :=
  Utf8.encode ['🇦', 'x', '🇧'] ++ [0x1B, 0x5B, 0x44, 0x7F]

/-- On a terminal that the prompt fills, these keys leave a cursor inside of the flag, and drawing
it takes a number out of range. -/
theorem inRange_fed_flagKeys : ∃ s,
    start (.ofConfig .default (.ofColumns 1)) .ofPipe (.ofBytes flagKeys true false none)
      (.fresh none) ['>', ' '] = .ok s ∧
    ((s.fed 5).inRange = true ↔ ∀ m ≤ 5, ¬((s.fed m).view true).Overruns) ∧
    (s.fed 5).inRange = false :=
  ⟨_, rfl, @inRange_fed_iff (.ofConfig .default (.ofColumns 1)) .ofPipe
    (.ofBytes flagKeys true false none) (.fresh none) ['>', ' '] _ rfl rfl 5, by decide +kernel⟩

/-- So there are sessions in which a number leaves its range. -/
theorem exists_not_inRange : ¬∀ (editor : Editor) (mode : RawMode) (input : Input)
    (output : Output) (prompt : Text) (s : Session) (n : Nat),
    start editor mode input output prompt = .ok s → editor.config.multiline = false →
      1 ≤ s.columns → s.columns ≤ 65535 → (s.fed n).inRange = true := by
  intro h
  have hflag := h (.ofConfig .default (.ofColumns 1)) .ofPipe
    (.ofBytes flagKeys true false none) (.fresh none) ['>', ' '] _ 5 rfl rfl (by decide)
    (by decide)
  exact absurd hflag (by decide +kernel)

end Session

end Typeline
