import Typeline.Proofs.Edit.Placement
import Typeline.Proofs.Session.Calls
import Typeline.Proofs.Session.Tracking

/-!
# Where the edit is on the screen

A session starts below whatever a terminal shows, and draws its line from there on. That the edit
is on the screen from some row on means two things: the screen shows a drawing of the line from that
row on and nothing else, and what is remembered of the last drawing lets the next one land there.
Whatever keys are read, the edit stays where it is, and what is shown above it stays as it was.
Only clearing the screen moves the edit, to the first row.

Hiding the edit erases it, and it can be drawn again where it was. But the rows of an edit over
several rows are still remembered then, although the cursor is in the first of them. So the next
drawing lands too high, by as many rows as the cursor was below the first one.

A hint is not drawn at the start and when the line has been entered. So the screen shows a drawing
with hints or one without.

## Main definitions

* `Output.Leads` : what has been written leads from one screen to another.
* `Session.replayed` : what a terminal shows after what a session has written.
* `Session.Stands` : the next drawing of the line lands in a row.
* `Session.OnScreen` : the edit is on the screen from a row on.
* `Session.Hidden` : the edit has been erased.
* `Session.Redrawn` : what a key makes of the screen.

## Main results

* `Session.leads_start` : the start of a session.
* `Session.Stands.leads_feed` : any key.
* `Session.Stands.leads_hide`, `Session.Hidden.leads_hide` : hiding the edit.
* `Session.leads_reveal` : drawing the edit again.
-/

namespace Typeline

namespace Output

/-- What has been written to a terminal leads from one screen to another. -/
def Leads (o : Output) (screen : Screen) (o' : Output) (screen' : Screen) : Prop :=
  ∃ t, o.Wrote t o' ∧ screen.Shows t screen'

namespace Leads

variable {o o' o'' : Output} {screen screen' screen'' : Screen}

theorem refl (o : Output) (screen : Screen) : o.Leads screen o screen :=
  ⟨[], .nil o, .nil screen⟩

theorem trans (h : o.Leads screen o' screen') (h' : o'.Leads screen' o'' screen'') :
    o.Leads screen o'' screen'' := by
  obtain ⟨t, hwrote, hshows⟩ := h
  obtain ⟨t', hwrote', hshows'⟩ := h'
  exact ⟨t ++ t', hwrote.append hwrote', hshows.append hshows'⟩

theorem of_write (o : Output) {t : Text} (h : screen.Shows t screen') :
    o.Leads screen (o.write t) screen' :=
  ⟨t, o.wrote_write t, h⟩

theorem columns_eq (h : o.Leads screen o' screen') : screen'.columns = screen.columns := by
  obtain ⟨t, -, hshows⟩ := h
  exact hshows.keeps.2

/-- If no write has failed, replaying what has been written shows the screen. -/
theorem feedText_since (h : o.Leads screen o' screen') (haccepts : o'.Accepts)
    (hreader : screen.reader = StreamParser.start) : screen.feedText (o'.since o) = screen' := by
  obtain ⟨t, hwrote, hshows⟩ := h
  rw [hwrote.since_eq haccepts, Screen.feedText_of_shows hreader hshows]

theorem accepts (h : o.Leads screen o' screen') (haccepts : o'.Accepts) : o.Accepts := by
  obtain ⟨t, hwrote, -⟩ := h
  exact (hwrote haccepts).1

end Leads

end Output

/-- A line is drawn with characters that are clusters of one column, and the cursor gets to its
place. -/
structure SessionSettings.Narrow (p : SessionSettings) (line : Line) : Prop where
  drawsAlone : (p.view line true).DrawsAlone 1
  inReach : (p.view line true).InReach

namespace SessionSettings.Narrow

variable {p : SessionSettings} {line : Line} (h : p.Narrow line)

include h

private theorem drawsAlone_view (hints : Bool) : (p.view line hints).DrawsAlone 1 where
  prompt := h.drawsAlone.prompt
  line := h.drawsAlone.line
  printed := h.drawsAlone.printed
  hint hinter hint hsome hgiven := by
    cases hints with
    | true => exact h.drawsAlone.hint hinter hint hsome hgiven
    | false => exact absurd hsome (by simp [view])

private theorem inReach_view (hints : Bool) : (p.view line hints).InReach :=
  ⟨h.inReach.rows, h.inReach.columns⟩

end SessionSettings.Narrow

namespace Session

/-- What a terminal shows after all that a session has written to it, if it showed `screen` before
and all that had been written was that of `earlier`. -/
def replayed (s : Session) (earlier : Output) (screen : Screen) : Screen :=
  screen.feedText (s.output.since earlier)

theorem replayed_eq {s : Session} {earlier : Output} {screen screen' : Screen}
    (h : earlier.Leads screen s.output screen') (haccepts : s.output.Accepts)
    (hreader : screen.reader = StreamParser.start) : s.replayed earlier screen = screen' :=
  h.feedText_since haccepts hreader

/-- The line of a session is drawn with characters that are clusters of one column, and the cursor
gets to its place. -/
def Narrow (s : Session) : Prop := s.settings.Narrow s.shownLine

theorem Narrow.drawsAlone {s : Session} (h : s.Narrow) (hints : Bool) :
    (s.view hints).DrawsAlone 1 :=
  h.drawsAlone_view hints

theorem Narrow.inReach {s : Session} (h : s.Narrow) (hints : Bool) : (s.view hints).InReach :=
  h.inReach_view hints

/-- A session without a hinter whose line is drawn with characters that are clusters of one column.
This can be computed. -/
def PlainlyNarrow (s : Session) : Prop :=
  ((s.view true).hinter.isNone = true ∧ PrintsAlone 1 (s.view true).prompt ∧
    OwnClusters (s.view true).line.text ∧
    ((s.view true).masked = true ∨ PrintsAlone 1 (s.view true).line.text)) ∧
  (s.view true).InReach

instance : DecidablePred PlainlyNarrow := fun _ => inferInstanceAs (Decidable ((_ ∧ _ ∧ _ ∧ _) ∧ _))

theorem PlainlyNarrow.narrow {s : Session} (h : s.PlainlyNarrow) : s.Narrow :=
  ⟨LineView.drawsAlone_of_isNone h.1, h.2⟩

/-- The prompt leaves a column of the row. -/
def HasRoom (s : Session) : Prop := promptWidth s.prompt < s.columns

instance (s : Session) : Decidable s.HasRoom := inferInstanceAs (Decidable (_ < _))

/-- The next drawing of the line lands in the row `first`. -/
structure Stands (s : Session) (screen : Screen) (first : Nat) : Prop where
  ready : (s.view true).Ready s.drawState screen
  landing_eq : (s.view true).landing s.drawState screen = first

theorem Stands.unique {s : Session} {screen : Screen} {first low : Nat}
    (h : s.Stands screen first) (h' : s.Stands screen low) : first = low :=
  h.landing_eq.symm.trans h'.landing_eq

/-- The edit is on the screen from the row `top` on, with a hint or without. -/
structure OnScreen (s : Session) (screen : Screen) (top : Nat) : Prop extends
    s.Stands screen top where
  placed : ∃ hints, (s.view hints).PlacedAt screen top
  cursorRow_eq : s.editor.config.multiline = true → s.drawState.cursorRow = (s.view true).cursorRow

/-- The edit has been erased from the screen, and the cursor is where it began. -/
structure Hidden (s : Session) (screen : Screen) : Prop where
  vacant : screen.Vacant
  columns_eq : screen.columns = (s.view true).width
  remembers : (s.view true).RemembersErased s.drawState

/-- Two sessions show the same line in the same way, and remember the same drawing. -/
structure ShowsAlike (s t : Session) : Prop where
  settings : t.settings = s.settings
  line : t.shownLine = s.shownLine
  state : t.drawState = s.drawState

namespace ShowsAlike

variable {s t : Session} (h : s.ShowsAlike t)

include h

theorem view_eq (hints : Bool) : t.view hints = s.view hints := by
  rw [Session.view_eq, Session.view_eq, h.settings, h.line]

theorem stands {screen : Screen} {first : Nat} (hs : s.Stands screen first) :
    t.Stands screen first := by
  refine ⟨?_, ?_⟩ <;> rw [h.view_eq, h.state]
  exacts [hs.ready, hs.landing_eq]

theorem onScreen {screen : Screen} {top : Nat} (hs : s.OnScreen screen top) :
    t.OnScreen screen top := by
  obtain ⟨hints, hplaced⟩ := hs.placed
  refine ⟨h.stands hs.toStands, ⟨hints, by rwa [h.view_eq]⟩, fun hmulti => ?_⟩
  rw [h.view_eq, h.state]
  exact hs.cursorRow_eq ((congrArg (fun p => p.config.multiline) h.settings).symm.trans hmulti)

theorem hidden {screen : Screen} (hs : s.Hidden screen) : t.Hidden screen := by
  refine ⟨hs.vacant, ?_, ?_⟩ <;> rw [h.view_eq]
  · exact hs.columns_eq
  · rw [h.state]
    exact hs.remembers

end ShowsAlike

theorem ShowsAlike.of_display {s t : Session} (same : t.display = s.display)
    (line : t.shownLine = s.shownLine) : s.ShowsAlike t :=
  ⟨congrArg SessionDisplay.settings same, line, congrArg SessionDisplay.drawState same⟩

theorem width_eq {s : Session} (hroom : s.HasRoom) (hints : Bool) :
    (s.view hints).width = s.columns :=
  width_view (p := s.settings) hroom s.shownLine hints

variable {s t : Session} {screen : Screen} {first top : Nat}

theorem HasRoom.of_settings (h : s.HasRoom) (hsettings : t.settings = s.settings) : t.HasRoom := by
  rw [HasRoom, show t.prompt = s.prompt from congrArg SessionSettings.prompt hsettings,
    show t.columns = s.columns from congrArg SessionSettings.columns hsettings]
  exact h

/-- Without a hinter there are no hints to be shown. -/
theorem view_of_no_hinter (hnone : s.editor.hinter = none) (hints : Bool) :
    s.view hints = s.view true := by
  rw [view, view, hnone, ite_self, ite_self]

/-! ### Drawings -/

/-- After a drawing the edit is on the screen. -/
theorem onScreen_of_placedAt (hroom : s.HasRoom) (hnarrow : s.Narrow) {hints : Bool}
    (hplaced : (s.view hints).PlacedAt screen top)
    (hstate : (s.view true).Remembers s.drawState) : s.OnScreen screen top := by
  have hroom' : promptWidth (s.view hints).prompt < (s.view hints).width := by
    rw [width_eq hroom]
    exact hroom
  have hdraws := hnarrow.drawsAlone hints
  have hreach := hnarrow.inReach hints
  have hready := (hplaced.toShownFrom.ready hdraws hreach hstate).1
  have hlanding := hplaced.toShownFrom.landing_eq hdraws hreach hroom' hstate
  exact ⟨⟨⟨hready.wellFormed, hready.columns_eq, hready.reach, hready.blankFrom⟩, hlanding⟩,
    ⟨hints, hplaced⟩, fun hmulti => (hstate hmulti).2⟩

/-- A drawing is placed where it lands, and touches nothing above. -/
theorem Stands.leads_drawn (h : s.Stands screen first) (same : t.display = s.display)
    (hnarrow : t.Narrow) (hints : Bool) :
    ∃ screen', s.output.Leads screen (t.refreshWith .all hints).output screen' ∧
      (t.view hints).PlacedAt screen' first ∧ screen.SameAbove screen' first := by
  have hsettings : t.settings = s.settings := congrArg SessionDisplay.settings same
  have hstate : t.drawState = s.drawState := congrArg SessionDisplay.drawState same
  have houtput : t.output = s.output := congrArg SessionDisplay.output same
  have hmulti : (s.view true).multiline = (t.view hints).multiline :=
    congrArg (fun p => p.config.multiline) hsettings.symm
  have hwidth : (s.view true).width = (t.view hints).width :=
    congrArg (fun p => max p.columns 1) hsettings.symm
  have hready : (t.view hints).Ready s.drawState screen := by
    obtain ⟨⟨hwell, hcolumns, hreach, hblank⟩, -⟩ := h
    rw [LineView.lastErased, hmulti] at hblank
    exact ⟨hwell, hcolumns.trans hwidth, hmulti ▸ hreach, hblank⟩
  have hlanding : (t.view hints).landing s.drawState screen = first := by
    rw [LineView.landing, ← hmulti]
    exact h.landing_eq
  obtain ⟨screen', hshows, hplaced, hsame⟩ :=
    (hnarrow.drawsAlone hints).shows_all (hnarrow.inReach hints) hready
  rw [hlanding] at hplaced hsame
  rw [← hstate] at hshows
  refine ⟨screen', ?_, hplaced, hsame⟩
  rw [← houtput]
  exact .of_write t.output hshows

/-- A drawing puts the edit where it lands, and touches nothing above. -/
theorem Stands.leads_redraw (h : s.Stands screen first) (same : t.display = s.display)
    (hroom : s.HasRoom) (hnarrow : t.Narrow) (hints : Bool) :
    ∃ screen', s.output.Leads screen (t.refreshWith .all hints).output screen' ∧
      (t.refreshWith .all hints).OnScreen screen' first ∧ screen.SameAbove screen' first := by
  have hroom' : t.HasRoom := hroom.of_settings (congrArg SessionDisplay.settings same)
  obtain ⟨screen', hleads, hplaced, hsame⟩ := h.leads_drawn same hnarrow hints
  refine ⟨screen', hleads, ?_, hsame⟩
  exact onScreen_of_placedAt (s := t.refreshWith .all hints) hroom' hnarrow hplaced
    ((t.view hints).remembers_draw t.drawState rfl)

/-- Typing at the end of the line on a single row leaves the edit where it is. -/
theorem OnScreen.leads_typed (h : s.OnScreen screen top) (hroom : s.HasRoom) (hbefore : s.Narrow)
    {c : Char} {line : Line} (idle : s.cycle = .idle) (insert : s.line.insert [c] = some line)
    (plain : { s with line }.isPlainInsertion s.line.atEnd c = true)
    (hafter : (s.typed c line).Narrow) :
    ∃ screen', s.output.Leads screen (s.typed c line).output screen' ∧
      (s.typed c line).OnScreen screen' top ∧ screen.SameAbove screen' top := by
  simp only [isPlainInsertion, Bool.and_eq_true, decide_eq_true_eq, Bool.not_eq_true',
    Option.isNone_iff_eq_none] at plain
  obtain ⟨⟨⟨⟨hend, -⟩, hfits⟩, hsingle⟩, hhinter⟩ := plain
  obtain ⟨htext, hend'⟩ := Line.insert_of_atEnd insert hend
  rw [Line.atEnd, List.isEmpty_iff] at hend
  have hshown : s.shownLine = s.line := shownLine_of_idle idle
  have hshown' : (s.typed c line).shownLine = line := shownLine_of_idle idle
  obtain ⟨hints, hplaced⟩ := h.placed
  have hview : (s.typed c line).view hints = { s.view hints with line } := by
    rw [view_eq, hshown']
    rfl
  have hnarrow := hafter.drawsAlone hints
  rw [hview] at hnarrow
  obtain ⟨screen', hshows, hplaced', hsame⟩ := hplaced.shows_typed (hbefore.drawsAlone hints)
    hnarrow (by rw [← hshown] at htext; exact htext) hsingle
    (show (if hints then s.editor.hinter else none) = none by rw [hhinter, ite_self])
    (by rw [← hshown] at hend; exact hend) hend' (by rw [width_eq hroom]; exact hfits)
  rw [← hview] at hplaced'
  refine ⟨screen', .of_write s.output hshows, ?_, hsame⟩
  refine onScreen_of_placedAt (s := s.typed c line) hroom hafter hplaced' fun hmulti => ?_
  exact absurd (hsingle.symm.trans hmulti) Bool.false_ne_true

/-- Clearing the screen and drawing the line puts the edit into the first row. -/
theorem leads_cleared (hs : screen.WellFormed) (hcolumns : screen.columns = (s.view true).width)
    (hroom : s.HasRoom) (hnarrow : s.Narrow) :
    ∃ screen', s.output.Leads screen (s.cleared.refreshWith .all true).output screen' ∧
      (s.cleared.refreshWith .all true).OnScreen screen' 0 := by
  have hshows := screen.shows_clear
  have hstands : s.cleared.Stands ((screen.moveTo 0 0).eraseDisplay 2) 0 := by
    refine ⟨⟨(hs.moveTo 0 0).eraseDisplay 2, hshows.keeps.2.trans hcolumns, fun _ => Nat.zero_le _,
      fun row column _ => Screen.cell_eraseDisplay _ _ _⟩, ?_⟩
    rw [LineView.landing]
    split <;> rfl
  obtain ⟨screen', hleads, honScreen, -⟩ :=
    hstands.leads_redraw (s := s.cleared) (t := s.cleared) rfl hroom hnarrow true
  exact ⟨screen', (Output.Leads.of_write s.output hshows).trans hleads, honScreen⟩

/-! ### Keys -/

/-- What a key makes of a screen on which the next drawing lands in the row `first`. Either it is
left as it was, or the edit is drawn there and nothing above is touched, or the screen is cleared
and the edit is drawn in the first row. -/
inductive Redrawn (clears : Prop) (s : Session) (screen : Screen) (first : Nat) (t : Session)
    (screen' : Screen) : Prop where
  /-- Nothing is drawn. -/
  | kept (alike : s.ShowsAlike t) (same : screen' = screen)
  /-- The edit is drawn where the next drawing lands. -/
  | drawn (onScreen : t.OnScreen screen' first) (same : screen.SameAbove screen' first)
  /-- The screen is cleared before. -/
  | cleared (request : clears) (onScreen : t.OnScreen screen' 0)

namespace Redrawn

variable {clears : Prop} {screen' : Screen} (h : Redrawn clears s screen first t screen')

include h

/-- If the edit was on the screen it still is. -/
theorem onScreen (hs : s.OnScreen screen first) : ∃ top, t.OnScreen screen' top := by
  cases h with
  | kept alike same => exact ⟨first, same ▸ alike.onScreen hs⟩
  | drawn honScreen same => exact ⟨first, honScreen⟩
  | cleared request honScreen => exact ⟨0, honScreen⟩

theorem stands (hs : s.Stands screen first) : ∃ low, t.Stands screen' low := by
  cases h with
  | kept alike same => exact ⟨first, same ▸ alike.stands hs⟩
  | drawn honScreen same => exact ⟨first, honScreen.toStands⟩
  | cleared request honScreen => exact ⟨0, honScreen.toStands⟩

/-- One thing is done to the screen after another. -/
theorem trans {u : Session} {screen'' : Screen} {low : Nat} (hs : s.Stands screen first)
    (hlow : t.Stands screen' low) (h' : Redrawn clears t screen' low u screen'') :
    Redrawn clears s screen first u screen'' := by
  cases h with
  | kept alike same =>
    subst same
    obtain rfl : low = first := hlow.unique (alike.stands hs)
    cases h' with
    | kept alike' same' =>
      exact .kept ⟨alike'.settings.trans alike.settings, alike'.line.trans alike.line,
        alike'.state.trans alike.state⟩ same'
    | drawn honScreen same => exact .drawn honScreen same
    | cleared request honScreen => exact .cleared request honScreen
  | drawn honScreen same =>
    obtain rfl : low = first := hlow.unique honScreen.toStands
    cases h' with
    | kept alike' same' => exact .drawn (same' ▸ alike'.onScreen honScreen) (same' ▸ same)
    | drawn honScreen' same' => exact .drawn honScreen' (same.trans same')
    | cleared request honScreen' => exact .cleared request honScreen'
  | cleared request honScreen =>
    obtain rfl : low = 0 := hlow.unique honScreen.toStands
    cases h' with
    | kept alike' same' => exact .cleared request (same' ▸ alike'.onScreen honScreen)
    | drawn honScreen' same' => exact .cleared request honScreen'
    | cleared request' honScreen' => exact .cleared request honScreen'

end Redrawn

/-- One action. On a single row the edit has to be on the screen, since a typed character may be
all that is written. -/
theorem Stands.leads_act {ends clears : Prop} (hs : s.Stands screen first)
    (h : Acts ends clears s t) (hroom : s.HasRoom)
    (hsingle : s.editor.config.multiline = false → ∃ top, s.OnScreen screen top)
    (hbefore : s.Narrow) (hafter : t.Narrow) :
    ∃ screen', s.output.Leads screen t.output screen' ∧
      Redrawn clears s screen first t screen' := by
  cases h with
  | rest same line =>
    have houtput : t.output = s.output := congrArg SessionDisplay.output same
    exact ⟨screen, houtput ▸ .refl s.output screen, .kept (.of_display same line) rfl⟩
  | @redraw t hints same shown =>
    obtain ⟨screen', hleads, honScreen, hsame⟩ := hs.leads_redraw same hroom hafter hints
    exact ⟨screen', hleads, .drawn honScreen hsame⟩
  | @ring t same line =>
    have houtput : t.output = s.output := congrArg SessionDisplay.output same
    refine ⟨screen, ?_, .kept ⟨congrArg SessionDisplay.settings same, line,
      congrArg SessionDisplay.drawState same⟩ rfl⟩
    rw [← houtput]
    exact .of_write t.output screen.shows_bell
  | type c idle insert plain =>
    have hmulti : s.editor.config.multiline = false := by
      simp only [isPlainInsertion, Bool.and_eq_true, Bool.not_eq_true'] at plain
      exact plain.1.2
    obtain ⟨top, honScreen⟩ := hsingle hmulti
    obtain rfl : top = first := honScreen.toStands.unique hs
    obtain ⟨screen', hleads, honScreen', hsame⟩ :=
      honScreen.leads_typed hroom hbefore idle insert plain hafter
    exact ⟨screen', hleads, .drawn honScreen' hsame⟩
  | clear request =>
    obtain ⟨screen', hleads, honScreen⟩ :=
      leads_cleared hs.ready.wellFormed hs.ready.columns_eq hroom hafter
    exact ⟨screen', hleads, .cleared request honScreen⟩

/-- A chain of actions. -/
theorem Stands.leads_chain {ends clears : Prop} {before after : Line} (hs : s.Stands screen first)
    (h : Chain ends clears before after s t) (hroom : s.HasRoom)
    (hsingle : s.editor.config.multiline = false → ∃ top, s.OnScreen screen top)
    (hshown : s.shownLine = before) (hbefore : s.settings.Narrow before)
    (hafter : s.settings.Narrow after) :
    ∃ screen', s.output.Leads screen t.output screen' ∧
      Redrawn clears s screen first t screen' := by
  suffices hboth : (∃ screen', s.output.Leads screen t.output screen' ∧
      Redrawn clears s screen first t screen') ∧ t.Narrow from hboth.1
  induction h with
  | refl =>
    refine ⟨⟨screen, .refl _ _, .kept ⟨rfl, rfl, rfl⟩ rfl⟩, ?_⟩
    rw [Narrow, hshown]
    exact hbefore
  | @tail t u htail step ih =>
    obtain ⟨⟨screen₁, hleads₁, hredrawn₁⟩, hnarrow⟩ := ih
    have hsettings : t.settings = s.settings := Chain.settings_eq htail
    have hnarrow' : u.Narrow := by
      rw [Narrow, step.1.settings_eq, hsettings]
      rcases step.2 with hline | hline <;> rwa [hline]
    obtain ⟨low, hlow⟩ := hredrawn₁.stands hs
    obtain ⟨screen₂, hleads₂, hredrawn₂⟩ := hlow.leads_act step.1 (hroom.of_settings hsettings)
      (fun hmulti => by
        obtain ⟨top, honScreen⟩ :=
          hsingle ((congrArg (fun p => p.config.multiline) hsettings).symm.trans hmulti)
        exact hredrawn₁.onScreen (honScreen.toStands.unique hs ▸ honScreen)) hnarrow hnarrow'
    exact ⟨⟨screen₂, hleads₁.trans hleads₂, hredrawn₁.trans hs hlow hredrawn₂⟩, hnarrow'⟩

/-- **Any key** leaves the screen as it is or draws the edit where it lands, unless the key clears
the screen. -/
theorem Stands.leads_feed (hs : s.Stands screen first) (hterminal : s.isTerminal = true)
    (hroom : s.HasRoom)
    (hsingle : s.editor.config.multiline = false → ∃ top, s.OnScreen screen top)
    (hbefore : s.Narrow) (hafter : s.feed.2.Narrow) :
    ∃ screen', s.output.Leads screen s.feed.2.output screen' ∧
      Redrawn (s.reading = .key .clearScreen) s screen first s.feed.2 screen' := by
  refine hs.leads_chain (feed_chain hterminal) hroom hsingle rfl hbefore ?_
  rwa [Narrow, settings_feed] at hafter

/-! ### Hiding the edit and drawing it again -/

theorem hide_eq (hterminal : s.isTerminal = true) : s.hide = s.refresh .clean := if_pos hterminal

theorem reveal_eq (hterminal : s.isTerminal = true) : s.reveal = s.refresh .write :=
  if_pos hterminal

theorem shownLine_hide (s : Session) : s.hide.shownLine = s.shownLine := by
  rw [hide]
  split <;> rfl

theorem view_hide (s : Session) (hints : Bool) : s.hide.view hints = s.view hints := by
  rw [view_eq, view_eq, shownLine_hide, settings_hide]

/-- Hiding erases everything from the row in which the next drawing would land on, and touches
nothing above. -/
theorem Stands.leads_erased (hs : s.Stands screen first) (hterminal : s.isTerminal = true) :
    ∃ screen', s.output.Leads screen s.hide.output screen' ∧ screen'.Vacant ∧
      screen'.row = first ∧ screen.SameAbove screen' first := by
  obtain ⟨screen', hshows, hvacant, hrow, hsame⟩ := hs.ready.shows_clean
  rw [hs.landing_eq] at hrow hsame
  rw [hide_eq hterminal]
  exact ⟨screen', .of_write s.output hshows, hvacant, hrow, hsame⟩

/-- If the row of the cursor is remembered, the edit is hidden. -/
theorem Stands.leads_hide (hs : s.Stands screen first) (hterminal : s.isTerminal = true)
    (hcursor : s.editor.config.multiline = true →
      s.drawState.cursorRow = (s.view true).cursorRow) :
    ∃ screen', s.output.Leads screen s.hide.output screen' ∧ s.hide.Hidden screen' ∧
      screen'.row = first ∧ screen.SameAbove screen' first := by
  obtain ⟨screen', hleads, hvacant, hrow, hsame⟩ := hs.leads_erased hterminal
  refine ⟨screen', hleads, ⟨hvacant, ?_, ?_⟩, hrow, hsame⟩
  · rw [hleads.columns_eq, hs.ready.columns_eq, view_hide]
  · rw [view_hide, hide_eq hterminal]
    exact (s.view true).remembersErased_clean hcursor

namespace Hidden

variable (h : s.Hidden screen)

include h

theorem cursorRow_eq (hmulti : s.editor.config.multiline = true) :
    s.drawState.cursorRow = (s.view true).cursorRow :=
  (h.remembers hmulti).2

/-- The next drawing lands too high. -/
theorem stands (hnarrow : s.Narrow) : s.Stands screen (screen.row - (s.view true).climb) := by
  obtain ⟨hready, hlanding⟩ := h.remembers.ready (hnarrow.inReach true) h.vacant h.columns_eq
  exact ⟨hready, hlanding⟩

/-- Hiding an edit that has been erased erases what is above it. -/
theorem leads_hide (hterminal : s.isTerminal = true) (hnarrow : s.Narrow) :
    ∃ screen', s.output.Leads screen s.hide.output screen' ∧ s.hide.Hidden screen' ∧
      screen'.row = screen.row - (s.view true).climb ∧
      screen.SameAbove screen' (screen.row - (s.view true).climb) :=
  (h.stands hnarrow).leads_hide hterminal h.cursorRow_eq

end Hidden

/-- Drawing the edit where nothing is drawn that it does not cover places it in the row of the
cursor. -/
theorem leads_shown (hterminal : s.isTerminal = true) (hnarrow : s.Narrow) (hs : screen.WellFormed)
    (hcolumns : screen.columns = (s.view true).width)
    (hblank : screen.BlankBehind (s.view true).drawnText) :
    ∃ screen', s.output.Leads screen s.reveal.output screen' ∧
      (s.view true).PlacedAt screen' screen.row ∧ screen.SameAbove screen' screen.row := by
  obtain ⟨screen', hshows, hplaced, hsame⟩ := (hnarrow.drawsAlone true).shows_write
    (hnarrow.inReach true) hs hcolumns hblank s.drawState
  rw [reveal_eq hterminal]
  exact ⟨screen', .of_write s.output hshows, hplaced, hsame⟩

/-- Drawing the edit where nothing is drawn that it does not cover puts it into the row of the
cursor. -/
theorem leads_reveal (hterminal : s.isTerminal = true) (hroom : s.HasRoom) (hnarrow : s.Narrow)
    (hs : screen.WellFormed) (hcolumns : screen.columns = (s.view true).width)
    (hblank : screen.BlankBehind (s.view true).drawnText) :
    ∃ screen', s.output.Leads screen s.reveal.output screen' ∧
      s.reveal.OnScreen screen' screen.row ∧ screen.SameAbove screen' screen.row := by
  obtain ⟨screen', hleads, hplaced, hsame⟩ := leads_shown hterminal hnarrow hs hcolumns hblank
  refine ⟨screen', hleads, ?_, hsame⟩
  rw [reveal_eq hterminal]
  exact onScreen_of_placedAt (s := s.refresh .write) hroom hnarrow hplaced
    ((s.view true).remembers_draw s.drawState rfl)

/-- What is drawn of a line is not longer without a hint. -/
theorem length_drawnText_le (s : Session) (hints : Bool) :
    (s.view hints).drawnText.length ≤ (s.view true).drawnText.length := by
  cases hints with
  | true => exact Nat.le_refl _
  | false =>
    have hnone : (s.view false).shownHint = [] := LineView.shownHint_of_no_hinter rfl
    have hshown (part : Text) : ((s.view false).shownText part).length ≤
        ((s.view true).shownText part).length := by
      rw [LineView.shownText, LineView.shownText, hnone, List.append_nil]
      exact (List.prefix_append _ _).length_le
    rw [LineView.drawnText, LineView.drawnText]
    change (if s.editor.config.multiline then _ else _ : Text).length ≤
      (if s.editor.config.multiline then _ else _ : Text).length
    split
    · exact hshown _
    · exact hshown _

/-- Drawing an edit that is on the screen once more puts it into the row of the cursor. -/
theorem OnScreen.leads_reveal (h : s.OnScreen screen top) (hterminal : s.isTerminal = true)
    (hroom : s.HasRoom) (hnarrow : s.Narrow) :
    ∃ screen', s.output.Leads screen s.reveal.output screen' ∧
      s.reveal.OnScreen screen' screen.row ∧ screen.SameAbove screen' screen.row := by
  obtain ⟨hints, hplaced⟩ := h.placed
  refine Session.leads_reveal hterminal hroom hnarrow hplaced.wellFormed hplaced.columns_eq ?_
  -- What is drawn of the edit above its own row is covered by as much below it.
  intro row column hrow hcolumn hle
  have htop : top ≤ screen.row := hplaced.row_eq ▸ Nat.le_add_right _ _
  have hmore := Nat.mul_le_mul_right screen.columns (show row - screen.row ≤ row - top by omega)
  rw [hplaced.holdsBlock row column (by omega) hcolumn]
  exact blockCell_of_le (Nat.le_trans (s.length_drawnText_le hints) (by omega))

/-- Drawing an edit that has been erased puts it where the cursor is. -/
theorem Hidden.leads_reveal (h : s.Hidden screen) (hterminal : s.isTerminal = true)
    (hroom : s.HasRoom) (hnarrow : s.Narrow) :
    ∃ screen', s.output.Leads screen s.reveal.output screen' ∧
      s.reveal.OnScreen screen' screen.row ∧ screen.SameAbove screen' screen.row :=
  Session.leads_reveal hterminal hroom hnarrow h.vacant.wellFormed h.columns_eq
    (h.vacant.blankFrom.mono (Nat.le_succ _)).blankBehind

/-! ### The start -/

/-- The screen of a terminal on which a session starts. Whatever it shows above, nothing is drawn
from the cursor on, which stands at the start of a row. If the terminal is asked for its width, its
answers are true. -/
structure StartsBelow (editor : Editor) (input : Input) (output : Output) (screen : Screen) :
    Prop where
  reader_eq : screen.reader = StreamParser.start
  columns_eq : screen.columns = (findColumns editor.terminal input output).1
  vacant : screen.Vacant
  answers : (editor.terminal.fixedColumns <|> input.columns) ≠ none ∨
    AnswersTruly screen.columns input output

theorem StartsBlank.startsBelow {editor : Editor} {input : Input} {output : Output}
    (h : StartsBlank editor input output screen) : StartsBelow editor input output screen :=
  ⟨h.reader_eq, h.columns_eq, h.fresh.vacant, h.answers⟩

/-- Up to the prompt, which shows the empty line without a hint, a session has only looked at its
terminal. -/
theorem leads_prompt {editor : Editor} {mode : RawMode} {input : Input} {output : Output}
    {prompt : Text} (hstart : start editor mode input output prompt = .ok s)
    (hterminal : s.isTerminal = true) (hbelow : StartsBelow editor input output screen)
    (hdraws : (s.view false).DrawsAlone 1) (hcolumns : (s.view false).width = s.columns) :
    ∃ screen', output.Leads screen s.output screen' ∧
      (s.view false).ShownFrom screen' screen.row ∧ screen.SameAbove screen' screen.row ∧
      (s.HasRoom → (s.view false).PlacedAt screen' screen.row) := by
  obtain ⟨probe, hwrote, hshows⟩ := wrote_findColumns editor.terminal input output
  obtain ⟨screen₁, hprobe, hprobed⟩ := hshows screen
  obtain ⟨hvacant, hrow, hsame⟩ :=
    hbelow.vacant.of_probed (hprobed hbelow.answers hbelow.vacant.column_eq)
  obtain ⟨houtput, hsettings, hline, -⟩ := start_on_terminal hstart hterminal
  have hempty : (s.view false).line.before = [] ∧ (s.view false).line.after = [] := by
    rw [show (s.view false).line = .empty editor.config.capacity from hline]
    exact ⟨rfl, rfl⟩
  have hcolumns₁ : screen₁.columns = (s.view false).width := by
    rw [hprobe.keeps.2, hbelow.columns_eq, hcolumns]
    exact (congrArg SessionSettings.columns hsettings).symm
  obtain ⟨screen₂, hprompt, hshown, hsame₂, hplaced⟩ :=
    LineView.shows_prompt hdraws hempty rfl hvacant hcolumns₁
  rw [hrow] at hshown hsame₂ hplaced
  have hview : (s.view false).prompt = prompt := congrArg SessionSettings.prompt hsettings
  rw [hview] at hprompt
  refine ⟨screen₂, ⟨_, ?_, hprobe.append hprompt⟩, hshown, (hsame _).trans hsame₂, fun hroom =>
    hplaced (by rw [hcolumns]; exact hroom)⟩
  rw [houtput]
  exact hwrote.append (Output.wrote_write _ _)

/-- **The start** puts the edit into the row of the cursor. -/
theorem leads_start {editor : Editor} {mode : RawMode} {input : Input} {output : Output}
    {prompt : Text} (hstart : start editor mode input output prompt = .ok s)
    (hterminal : s.isTerminal = true) (hbelow : StartsBelow editor input output screen)
    (hroom : s.HasRoom) (hnarrow : s.Narrow) :
    ∃ screen', output.Leads screen s.output screen' ∧ s.OnScreen screen' screen.row ∧
      screen.SameAbove screen' screen.row := by
  obtain ⟨screen', hleads, hshown, hsame, hplaced⟩ := leads_prompt hstart hterminal hbelow
    (hnarrow.drawsAlone false) (width_eq hroom false)
  obtain ⟨-, -, hline, hstate⟩ := start_on_terminal hstart hterminal
  have hempty : (s.view false).line.before = [] ∧ (s.view false).line.after = [] := by
    rw [show (s.view false).line = .empty editor.config.capacity from hline]
    exact ⟨rfl, rfl⟩
  have hdraws := hnarrow.drawsAlone false
  obtain ⟨hready, hlanding⟩ := hshown.ready_initial hdraws hempty rfl
  have hroom' : promptWidth (s.view false).prompt < (s.view false).width := by
    rw [width_eq hroom]
    exact hroom
  rw [hshown.row_eq, LineView.drawnRow_of_empty hdraws hempty, Nat.div_eq_of_lt (by omega),
    Nat.add_zero] at hlanding
  refine ⟨screen', hleads, ⟨⟨?_, ?_⟩, ⟨false, hplaced hroom⟩, fun _ => ?_⟩, hsame⟩
  · rw [hstate]
    exact ⟨hready.wellFormed, hready.columns_eq, hready.reach, hready.blankFrom⟩
  · rw [hstate]
    exact hlanding
  · obtain ⟨hcursor, -⟩ := LineView.widths_of_empty hdraws hempty
    have hrow := (s.view false).cursorRow_eq
    rw [hcursor, Nat.div_eq_of_lt hroom'] at hrow
    rw [hstate]
    exact hrow.symm

end Session

end Typeline
