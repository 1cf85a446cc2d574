import Typeline.Proofs.Session.Feed
import Typeline.Proofs.Terminal.Written

/-!
# Keeping track of the screen

Replaying what a session has written shows on a screen what its terminal shows. To say what that is
after any keys, `Session.Tracking` asks for a property of a screen and the line that it shows, which
the prompt establishes, every drawing establishes anew, and a single character keeps; drawings may
rely on a weaker property, which clearing the screen keeps. All else follows from what keys can make
a session do: `Session.Tracking.drawn_fed` is an induction over the keys and the actions of each.

The screen is the one of the terminal. So the reports of the cursor that the terminal sends while
its width is looked for are those of the screen.

## Main definitions

* `Session.Tracking` : what the screen shows of a line, kept by everything that a session writes.
* `Session.StartsBlank` : the screen of a terminal on which a session starts.

## Main results

* `Session.Tracking.drawn_fed` : the screen shows the line after any keys.
-/

namespace Typeline

namespace Session

theorem width_view {p : SessionSettings} (hroom : promptWidth p.prompt < p.columns) (line : Line)
    (hints : Bool) : (p.view line hints).width = p.columns := by
  change max p.columns 1 = p.columns
  omega

/-- What is kept track of on the screen of sessions with some settings, as long as all lines that
are shown are allowed. `Drawn` says what the screen shows of a line, together with what is
remembered of the last drawing, and `Ready` is what a drawing relies on. -/
structure Tracking (p : SessionSettings) where
  Allowed : Line → Prop
  Ready : DrawState → Screen → Prop
  Drawn : Line → DrawState → Screen → Prop
  ready {line : Line} {d : DrawState} {screen : Screen} : Drawn line d screen → Ready d screen
  prompt {capacity : Nat} {screen : Screen} : screen.Fresh → screen.columns = p.columns →
    Allowed (.empty capacity) →
      ∃ screen', screen.Shows p.prompt screen' ∧ Drawn (.empty capacity) .initial screen'
  redraw {line : Line} {d : DrawState} {screen : Screen} : Ready d screen → Allowed line →
    ∃ screen', screen.Shows ((p.view line true).draw d .all).text screen' ∧
      Drawn line ((p.view line true).draw d .all).state screen'
  type {line line' : Line} {d : DrawState} {screen : Screen} {c : Char} :
    Drawn line d screen → Allowed line → Allowed line' →
    line.insert [c] = some line' → line.atEnd = true →
    promptWidth p.prompt + contentWidth p.config.masked line'.text < p.columns →
    p.config.multiline = false → p.hinter = none →
      ∃ screen', screen.Shows [if p.config.masked then maskGlyph else c] screen' ∧
        Drawn line' d screen'
  clear {d : DrawState} {screen : Screen} : Ready d screen →
    ∃ screen', screen.Shows
        (ControlSequence.cursorHome.text ++ (ControlSequence.eraseDisplay 2).text) screen' ∧
      Ready .initial screen'

/-- The screen of a terminal on which a session starts. Nothing is drawn on it, and its cursor
stands at the start of a row. If the terminal is asked for its width, its answers are true. -/
structure StartsBlank (editor : Editor) (input : Input) (output : Output) (screen : Screen) :
    Prop where
  reader_eq : screen.reader = StreamParser.start
  columns_eq : screen.columns = (findColumns editor.terminal input output).1
  fresh : screen.Fresh
  answers : (editor.terminal.fixedColumns <|> input.columns) ≠ none ∨
    AnswersTruly screen.columns input output

/-- On a terminal of a known width, a session starts on a blank screen of that width. -/
theorem startsBlank_blank {editor : Editor} {columns : Nat} (hpos : 0 < columns)
    (hcolumns : editor.terminal.fixedColumns = some columns) (input : Input) (output : Output) :
    StartsBlank editor input output (.blank columns) := by
  have hknown : (editor.terminal.fixedColumns <|> input.columns) = some columns := by
    rw [hcolumns]
    rfl
  refine ⟨rfl, ?_, Screen.fresh_blank columns, Or.inl ?_⟩
  · rw [findColumns_of_known hknown]
    exact Nat.max_eq_left hpos
  · rw [hknown]
    exact Option.some_ne_none columns

namespace Tracking

variable {p : SessionSettings} (k : Tracking p)

/-- What a session writes to become another one leads from a screen to one that shows its line. -/
def Leads (s : Session) (screen : Screen) (t : Session) : Prop :=
  ∃ text screen', s.output.Wrote text t.output ∧ screen.Shows text screen' ∧
    k.Drawn t.shownLine t.drawState screen'

variable {k}

theorem leads_refl {s : Session} {screen : Screen} (h : k.Drawn s.shownLine s.drawState screen) :
    k.Leads s screen s :=
  ⟨[], screen, .nil _, .nil screen, h⟩

theorem Leads.trans {s t u : Session} {screen : Screen} (h : k.Leads s screen t)
    (h' : ∀ screen', k.Drawn t.shownLine t.drawState screen' → k.Leads t screen' u) :
    k.Leads s screen u := by
  obtain ⟨text, screen₁, hwrote, hshows, hdrawn⟩ := h
  obtain ⟨text', screen₂, hwrote', hshows', hdrawn'⟩ := h' screen₁ hdrawn
  exact ⟨text ++ text', screen₂, hwrote.append hwrote', hshows.append hshows', hdrawn'⟩

/-- A drawing leads to a screen that shows the line. -/
theorem leads_redraw {s t : Session} {screen : Screen} (hsettings : s.settings = p)
    (same : t.display = s.display) (hready : k.Ready s.drawState screen)
    (hallowed : k.Allowed t.shownLine) : k.Leads s screen (t.refreshWith .all true) := by
  have hview : t.view true = p.view t.shownLine true := by
    rw [view_eq, ← hsettings]
    exact congrArg (fun d => d.settings.view t.shownLine true) same
  have hstate : t.drawState = s.drawState := congrArg SessionDisplay.drawState same
  have houtput : t.output = s.output := congrArg SessionDisplay.output same
  obtain ⟨screen', hshows, hdrawn⟩ := k.redraw hready hallowed
  rw [← hview, ← hstate] at hshows hdrawn
  refine ⟨_, screen', ?_, hshows, hdrawn⟩
  rw [← houtput]
  exact t.output.wrote_write _

/-- Every action leads to a screen that shows the line. -/
theorem leads_of_acts {ends clears : Prop} (hends : ¬ends) {s t : Session}
    (h : Acts ends clears s t)
    (hsettings : s.settings = p) (hbefore : k.Allowed s.shownLine) (hafter : k.Allowed t.shownLine)
    {screen : Screen} (hdrawn : k.Drawn s.shownLine s.drawState screen) :
    k.Leads s screen t := by
  cases h with
  | rest same line =>
    have houtput : t.output = s.output := congrArg SessionDisplay.output same
    have hstate : t.drawState = s.drawState := congrArg SessionDisplay.drawState same
    refine ⟨[], screen, ?_, .nil screen, ?_⟩
    · rw [houtput]
      exact .nil _
    · rwa [line, hstate]
  | @redraw t hints same shown =>
    obtain rfl := shown.resolve_right hends
    exact leads_redraw hsettings same (k.ready hdrawn) hafter
  | @ring t same line =>
    have houtput : t.output = s.output := congrArg SessionDisplay.output same
    have hstate : t.drawState = s.drawState := congrArg SessionDisplay.drawState same
    refine ⟨_, screen, ?_, screen.shows_bell, ?_⟩
    · rw [← houtput]
      exact t.output.wrote_write _
    · change k.Drawn t.shownLine t.drawState screen
      rwa [line, hstate]
  | @type c line idle insert plain =>
    have hline : (s.typed c line).shownLine = line := shownLine_of_idle idle
    rw [hline] at hafter
    rw [shownLine_of_idle idle] at hdrawn hbefore
    simp only [isPlainInsertion, Bool.and_eq_true, decide_eq_true_eq, Bool.not_eq_true',
      Option.isNone_iff_eq_none] at plain
    obtain ⟨⟨⟨⟨hend, -⟩, hroom⟩, hrow⟩, hhinter⟩ := plain
    subst hsettings
    obtain ⟨screen', hshows, hdrawn'⟩ :=
      k.type hdrawn hbefore hafter insert hend hroom hrow hhinter
    rw [← hline] at hdrawn'
    exact ⟨_, screen', s.output.wrote_write _, hshows, hdrawn'⟩
  | clear request =>
    obtain ⟨screen', hshows, hready⟩ := k.clear (k.ready hdrawn)
    obtain ⟨text, screen'', hwrote, hshows', hdrawn'⟩ :=
      leads_redraw (s := s.cleared) (t := s.cleared) hsettings rfl hready hafter
    exact ⟨_, screen'', (s.output.wrote_write _).append hwrote, hshows.append hshows', hdrawn'⟩

/-- A chain of actions leads to a screen that shows the line. -/
theorem leads_of_chain {ends clears : Prop} (hends : ¬ends) {first last : Line} {s t : Session}
    (h : Chain ends clears first last s t) (hsettings : s.settings = p) (hfirst : k.Allowed first)
    (hlast : k.Allowed last) (hbefore : k.Allowed s.shownLine) {screen : Screen}
    (hdrawn : k.Drawn s.shownLine s.drawState screen) : k.Leads s screen t := by
  suffices hboth : k.Leads s screen t ∧ k.Allowed t.shownLine from hboth.1
  induction h with
  | refl => exact ⟨leads_refl hdrawn, hbefore⟩
  | @tail t u htail step ih =>
    have hsettings' : t.settings = p := (Chain.settings_eq htail).trans hsettings
    have hafter : k.Allowed u.shownLine := by
      rcases step.2 with hline | hline
      · rwa [hline]
      · rwa [hline]
    exact ⟨ih.1.trans fun screen' hshown =>
      leads_of_acts hends step.1 hsettings' ih.2 hafter hshown, hafter⟩

/-- **Keeping track over any keys.** As long as the edit is not over and all lines that are shown
are allowed, what is written leads to a screen that shows the line. -/
theorem leads_fed {s : Session} (hsettings : s.settings = p) (hterminal : s.isTerminal = true)
    {n : Nat} (hmore : ∀ m < n, ∀ e, (s.fed m).feed.1 ≠ .done e)
    (hallowed : ∀ m ≤ n, k.Allowed (s.fed m).shownLine) {screen : Screen}
    (hdrawn : k.Drawn s.shownLine s.drawState screen) : k.Leads s screen (s.fed n) := by
  induction n with
  | zero => exact leads_refl hdrawn
  | succ n ih =>
    refine (ih (fun m hm => hmore m (Nat.lt_succ_of_lt hm))
      fun m hm => hallowed m (Nat.le_succ_of_le hm)).trans fun screen' hshown => ?_
    have hsame := settings_fed s n
    have hterminal' : (s.fed n).isTerminal = true :=
      (congrArg SessionSettings.isTerminal hsame).trans hterminal
    have hbefore := hallowed n (Nat.le_succ n)
    refine leads_of_chain ?_ (feed_chain hterminal') (hsame.trans hsettings) hbefore
      (hallowed (n + 1) (Nat.le_refl _)) hbefore hshown
    rintro ⟨e, hdone⟩
    exact hmore n (Nat.lt_succ_self n) e hdone

/-- **The screen of a session.** As long as the edit is not over, all lines that are shown are
allowed and no write has failed, replaying all that has been written since the start shows the
line. -/
theorem drawn_fed {editor : Editor} {mode : RawMode} {input : Input} {output : Output}
    {prompt : Text} {s : Session} (hstart : start editor mode input output prompt = .ok s)
    (hterminal : s.isTerminal = true) (k : Tracking s.settings) {screen : Screen}
    (hblank : StartsBlank editor input output screen) {n : Nat}
    (hmore : ∀ m < n, ∀ e, (s.fed m).feed.1 ≠ .done e)
    (hallowed : ∀ m ≤ n, k.Allowed (s.fed m).shownLine) (haccepts : (s.fed n).output.Accepts) :
    k.Drawn (s.fed n).shownLine (s.fed n).drawState
      (screen.feedText ((s.fed n).output.since output)) := by
  obtain ⟨probe, hwrote, hshows⟩ := wrote_findColumns editor.terminal input output
  obtain ⟨screen₁, hprobe, hprobed⟩ := hshows screen
  obtain ⟨houtput, hsettings, hline, hstate⟩ := start_on_terminal hstart hterminal
  have hcolumns : screen₁.columns = s.settings.columns := by
    rw [hprobe.keeps.2, hblank.columns_eq, hsettings]
  have hprompt : s.settings.prompt = prompt := congrArg SessionSettings.prompt hsettings
  have hempty : k.Allowed (.empty editor.config.capacity) := by
    rw [← hline]
    exact hallowed 0 (Nat.zero_le n)
  obtain ⟨screen₂, hwritten, hdrawn⟩ :=
    k.prompt (hblank.fresh.of_probed (hprobed hblank.answers hblank.fresh.column_eq)) hcolumns
      hempty
  rw [← hline, ← hstate] at hdrawn
  obtain ⟨text, screen₃, hwrote', hshows', hdrawn'⟩ :=
    leads_fed rfl hterminal hmore hallowed hdrawn
  rw [houtput, ← hprompt] at hwrote'
  have hall := (hwrote.append (Output.wrote_write _ _)).append hwrote'
  rw [hall.since_eq haccepts,
    Screen.feedText_of_shows hblank.reader_eq ((hprobe.append hwritten).append hshows')]
  exact hdrawn'

end Tracking

end Session

end Typeline
