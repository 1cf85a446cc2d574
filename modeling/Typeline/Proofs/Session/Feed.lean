import Mathlib.Logic.Relation
import Typeline.Session.Basic

/-!
# What a key makes a session do to the terminal

However a key is bound, a session does few kinds of things to the terminal: it redraws the line,
rings the bell, writes a single character, or clears the screen. `Session.Acts` lists them, with
all that a proof about the terminal needs to know of the session before and after.

A key may lead to several of them. A candidate that is accepted is drawn again as the line before
the key is acted on, and the key that enters the line may move its cursor and take a hint away. In
between, the line that is shown is the one from before or the one after the key, which is what
`Session.feed_chain` says. A property of sessions that is kept by every kind of action, as long as
the shown lines are harmless, is thereby kept by every key.

## Main definitions

* `SessionSettings`, `SessionDisplay` : what drawings of a session depend on besides the line.
* `Session.Acts` : the kinds of things that a session does to the terminal.
* `Session.Chain` : several of them.
* `Session.fed` : a session after some keys.

## Main results

* `Session.feed_chain` : a key leads to a chain of such actions.
-/

namespace Typeline

/-- What decides how a session draws a line. -/
structure SessionSettings where
  /-- What stands before the line. -/
  prompt : Text
  /-- The width of the terminal. -/
  columns : Nat
  /-- Whether the line is edited. -/
  isTerminal : Bool
  /-- How the line is edited. -/
  config : EditorConfig
  /-- The source of hints. -/
  hinter : Option Hinter

/-- What a drawing of a session starts from and adds to. -/
structure SessionDisplay where
  /-- How the session draws. -/
  settings : SessionSettings
  /-- The terminal. -/
  output : Output
  /-- What is remembered of the last drawing. -/
  drawState : DrawState
  /-- Whether in all drawings all numbers of columns stayed in range. -/
  inRange : Bool

/-- What a drawing of a line shows, with hints or without. -/
def SessionSettings.view (p : SessionSettings) (line : Line) (hints : Bool) : LineView where
  prompt := p.prompt
  line := line
  columns := p.columns
  multiline := p.config.multiline
  masked := p.config.masked
  hinter := if hints then p.hinter else none

namespace Session

/-- What decides how a session draws a line. -/
def settings (s : Session) : SessionSettings :=
  ⟨s.prompt, s.columns, s.isTerminal, s.editor.config, s.editor.hinter⟩

/-- What the next drawing of a session starts from and adds to. -/
def display (s : Session) : SessionDisplay := ⟨s.settings, s.output, s.drawState, s.inRange⟩

theorem shownLine_of_idle {s : Session} (h : s.cycle = .idle) : s.shownLine = s.line := by
  rw [shownLine, h]
  rfl

theorem view_eq (s : Session) (hints : Bool) : s.view hints = s.settings.view s.shownLine hints :=
  rfl

/-- A session in which a character has been typed and written by itself. -/
def typed (s : Session) (c : Char) (line : Line) : Session :=
  { s with line }.write [if s.editor.config.masked then maskGlyph else c]

/-- A session that has cleared the screen and has drawn nothing since. -/
def cleared (s : Session) : Session :=
  { s with output := clearScreen s.output, drawState := .initial }

/-- What a session does to the terminal in one go. A hint is left out of a drawing only if the
edit ends, and the screen is cleared only on request. -/
inductive Acts (ends clears : Prop) (s : Session) : Session → Prop where
  /-- Nothing that can be seen. -/
  | rest {t : Session} (same : t.display = s.display) (line : t.shownLine = s.shownLine) :
    Acts ends clears s t
  /-- Draw the line. -/
  | redraw {t : Session} (hints : Bool) (same : t.display = s.display)
    (shown : hints = true ∨ ends) : Acts ends clears s (t.refreshWith .all hints)
  /-- Ring the bell. -/
  | ring {t : Session} (same : t.display = s.display) (line : t.shownLine = s.shownLine) :
    Acts ends clears s t.ring
  /-- Write the character that has been typed. -/
  | type (c : Char) {line : Line} (idle : s.cycle = .idle) (insert : s.line.insert [c] = some line)
    (plain : { s with line }.isPlainInsertion s.line.atEnd c = true) :
    Acts ends clears s (s.typed c line)
  /-- Clear the screen and draw the line. -/
  | clear (request : clears) : Acts ends clears s (s.cleared.refreshWith .all true)

theorem Acts.settings_eq {ends clears : Prop} {s t : Session} (h : Acts ends clears s t) :
    t.settings = s.settings := by
  cases h with
  | rest same line => exact congrArg SessionDisplay.settings same
  | redraw hints same shown => exact congrArg SessionDisplay.settings same
  | ring same line => exact congrArg SessionDisplay.settings same
  | type c idle insert plain => rfl
  | clear request => rfl

/-- Several actions, between which one of two lines is shown. -/
def Chain (ends clears : Prop) (first last : Line) : Session → Session → Prop :=
  Relation.ReflTransGen fun s t =>
    Acts ends clears s t ∧ (t.shownLine = first ∨ t.shownLine = last)

namespace Chain

variable {ends clears : Prop} {first last : Line} {s t : Session}

theorem single (h : Acts ends clears s t) (hline : t.shownLine = first ∨ t.shownLine = last) :
    Chain ends clears first last s t :=
  Relation.ReflTransGen.single ⟨h, hline⟩

theorem trans {u : Session} (h : Chain ends clears first last s t)
    (h' : Chain ends clears first last t u) : Chain ends clears first last s u :=
  Relation.ReflTransGen.trans h h'

/-- Where only one line is shown, any other may be. -/
theorem of_first (h : Chain ends clears first first s t) : Chain ends clears first last s t :=
  Relation.ReflTransGen.mono (fun _ _ step => ⟨step.1, Or.inl (step.2.elim id id)⟩) _ _ h

theorem settings_eq (h : Chain ends clears first last s t) : t.settings = s.settings := by
  induction h with
  | refl => rfl
  | tail _ step ih => exact step.1.settings_eq.trans ih

end Chain

/-! ### Acting on a key -/

/-- A change of the line is drawn. -/
theorem chain_change (ends clears : Prop) (first : Line) (s t : Session)
    (same : t.display = s.display) (hline : t.shownLine = s.shownLine) (line : Option Line) :
    Chain ends clears first (t.change line).shownLine s (t.change line) := by
  cases line with
  | none => exact .single (.rest same hline) (Or.inr rfl)
  | some line => exact .single (.redraw (t := { t with line }) true same (Or.inl rfl)) (Or.inr rfl)

/-- A typed character is refused, written by itself or drawn with the whole line. -/
theorem chain_insertChar (ends clears : Prop) (first : Line) {s : Session} (hidle : s.cycle = .idle)
    (c : Char) : Chain ends clears first (s.insertChar c).shownLine s (s.insertChar c) := by
  rw [insertChar]
  cases hinsert : s.line.insert [c] with
  | none => exact .single (.rest rfl rfl) (Or.inr rfl)
  | some line =>
    by_cases hplain : { s with line }.isPlainInsertion s.line.atEnd c = true
    · simp only [hplain, if_true]
      exact .single (.type c hidle hinsert hplain) (Or.inr rfl)
    · simp only [hplain]
      exact .single (.redraw (t := { s with line }) true rfl (Or.inl rfl)) (Or.inr rfl)

/-- Entering the line may move its cursor to the end and then take a hint away. -/
theorem chain_enter {ends clears : Prop} (hends : ends) (s : Session) :
    Chain ends clears s.shownLine s.enter.2.shownLine s s.enter.2 := by
  rw [enter]
  generalize hmoved : (if s.closeSlot.editor.config.multiline = true then
    s.closeSlot.change s.closeSlot.line.moveEnd else s.closeSlot) = moved
  have hchain : Chain ends clears s.shownLine moved.shownLine s moved := by
    rw [← hmoved]
    split
    · exact chain_change ends clears s.shownLine s s.closeSlot rfl rfl _
    · exact .single (.rest rfl rfl) (Or.inl rfl)
  by_cases hhints : moved.editor.hinter.isSome = true
  · simp only [hhints, if_true]
    exact hchain.trans (Chain.single (.redraw false rfl (Or.inr hends)) (Or.inr rfl))
  · simp only [hhints]
    exact hchain

private theorem chain_browse (ends clears : Prop) (s : Session) (direction : BrowseDirection) :
    Chain ends clears s.shownLine (s.browse direction).shownLine s (s.browse direction) :=
  chain_change ends clears s.shownLine s
    { s.withHistory (s.editor.history.browse s.historyIndex s.line.text direction).1 with
      historyIndex := (s.editor.history.browse s.historyIndex s.line.text direction).2.1 }
    rfl rfl _

/-- What a key does, when no candidate is shown. -/
theorem chain_act {ends clears : Prop} {s : Session} (hidle : s.cycle = .idle) (k : Key)
    (hends : (s.act k).1 ≠ none → ends) (hclears : k = .clearScreen → clears) :
    Chain ends clears s.shownLine (s.act k).2.shownLine s (s.act k).2 := by
  have hchange := fun line => chain_change ends clears s.shownLine s s rfl rfl line
  cases k with
  | enter => exact chain_enter (hends (by simp [act])) s
  | deleteOrEnd =>
    rw [act]
    split
    · exact .single (.rest rfl rfl) (Or.inr rfl)
    · exact hchange _
  | char c => exact chain_insertChar ends clears s.shownLine hidle c
  | up => exact chain_browse ends clears s .older
  | down => exact chain_browse ends clears s .newer
  | clearScreen => exact .single (.clear (hclears rfl)) (Or.inr rfl)
  | interrupt => exact .single (.rest rfl rfl) (Or.inr rfl)
  | tab => exact .refl
  | escape => exact .refl
  | ignored => exact .refl
  | delete => exact hchange _
  | backspace => exact hchange _
  | transpose => exact hchange _
  | left => exact hchange _
  | right => exact hchange _
  | home => exact hchange _
  | lineEnd => exact hchange _
  | killLine => exact hchange _
  | killToEnd => exact hchange _
  | deleteWord => exact hchange _

/-! ### Completion -/

/-- Accepting a candidate makes it the line that it was shown as. -/
theorem accepted_eq_shownLine (s : Session) :
    (match s.cycle.index.bind (s.candidates[·]?) with
      | some candidate => s.line.setText candidate
      | none => s.line) = s.shownLine := by
  rw [shownLine]
  cases s.cycle.index.bind (s.candidates[·]?) <;> rfl

/-- The completion key draws the next candidate, and rings behind the last one. -/
theorem chain_continueCycle_tab (ends clears : Prop) (s t : Session) (same : t.display = s.display)
    (hline : t.shownLine = s.shownLine) :
    Chain ends clears s.shownLine (t.continueCycle .tab).2.shownLine s
      (t.continueCycle .tab).2 := by
  by_cases hlast : (t.cycle.advance t.candidates.length).index = some t.candidates.length
  · simp only [continueCycle, hlast, if_true]
    exact Chain.trans
      (.single (.ring same hline) (Or.inl hline))
      (.single (.redraw (s := t.ring)
        (t := { t with cycle := t.cycle.advance t.candidates.length }.ring) true rfl (Or.inl rfl))
        (Or.inr rfl))
  · simp only [continueCycle, hlast, if_false]
    exact .single (.redraw (t := { t with cycle := t.cycle.advance t.candidates.length }) true
      same (Or.inl rfl)) (Or.inr rfl)

/-- A key that leaves the cycle is handed back with the line as it was shown. -/
theorem continueCycle_of_ne {s : Session} {k : Key} (htab : k ≠ .tab) (hescape : k ≠ .escape) :
    s.continueCycle k =
      (some k, { s with line := s.shownLine, cycle := .idle, candidates := [] }.refresh .all) := by
  rw [← accepted_eq_shownLine]
  cases k <;> first | exact absurd rfl htab | exact absurd rfl hescape | rfl

theorem complete_of_active {s : Session} (h : s.cycle.isActive = true) (k : Key) :
    s.complete k = s.continueCycle k := by
  unfold complete
  exact if_pos h

theorem idle_of_not_isActive {s : Session} (h : ¬s.cycle.isActive = true) : s.cycle = .idle := by
  have hindex : s.cycle.index = none := by
    simpa [CompletionCycle.isActive] using h
  exact congrArg CompletionCycle.mk hindex

theorem complete_of_idle {s : Session} (h : s.cycle = .idle) (k : Key) :
    s.complete k = (some k, s) ∨
      ∃ candidates, s.complete k = (none, { s with candidates }.ring) ∨
        s.complete k = { s with candidates }.continueCycle .tab := by
  unfold complete
  rw [h]
  simp only [CompletionCycle.isActive, CompletionCycle.idle, Option.isSome_none,
    Bool.false_eq_true, if_false]
  split
  · next completer _ =>
    refine Or.inr ⟨completer s.line.text, ?_⟩
    by_cases hempty : (completer s.line.text).isEmpty = true
    · exact Or.inl (if_pos hempty)
    · exact Or.inr (if_neg hempty)
  · exact Or.inl rfl

/-- Without a cycle, only the completion key is a matter of completion. -/
theorem complete_of_idle_of_ne {s : Session} (h : s.cycle = .idle) {k : Key} (htab : k ≠ .tab) :
    s.complete k = (some k, s) := by
  unfold complete
  rw [if_neg (by rw [h]; exact Bool.false_ne_true)]
  cases k <;> first | exact absurd rfl htab | rfl

/-- Without a cycle, the completion key starts one if there are candidates. -/
theorem complete_tab_of_idle {s : Session} (h : s.cycle = .idle) :
    s.complete .tab =
      match s.editor.completer with
      | some completer =>
        if (completer s.line.text).isEmpty then
          (none, { s with candidates := completer s.line.text }.ring)
        else { s with candidates := completer s.line.text }.continueCycle .tab
      | none => (some .tab, s) := by
  unfold complete
  rw [if_neg (by rw [h]; exact Bool.false_ne_true)]
  cases s.editor.completer <;> rfl

/-- What a key does to the cycle. A key that is handed back finds no candidate shown any more, and
the line as it was shown. -/
theorem chain_complete (ends clears : Prop) (s : Session) (k : Key) :
    Chain ends clears s.shownLine (s.complete k).2.shownLine s (s.complete k).2 ∧
      ((s.complete k).1 ≠ none → (s.complete k).1 = some k ∧
        (s.complete k).2.cycle = .idle ∧ (s.complete k).2.shownLine = s.shownLine) := by
  by_cases hactive : s.cycle.isActive = true
  · rw [complete_of_active hactive]
    by_cases htab : k = .tab
    · subst htab
      exact ⟨chain_continueCycle_tab ends clears s s rfl rfl, fun hback => absurd rfl hback⟩
    · by_cases hescape : k = .escape
      · subst hescape
        refine ⟨.single (.redraw (t := { s with cycle := .idle }) true rfl (Or.inl rfl))
          (Or.inr rfl), fun hback => absurd rfl hback⟩
      · rw [continueCycle_of_ne htab hescape]
        exact ⟨.single (.redraw true rfl (Or.inl rfl)) (Or.inr rfl),
          fun _ => ⟨rfl, rfl, rfl⟩⟩
  · have hidle := idle_of_not_isActive hactive
    have hline (candidates : List Text) : { s with candidates }.shownLine = s.shownLine := by
      rw [shownLine_of_idle hidle]
      exact shownLine_of_idle hidle
    rcases complete_of_idle hidle k with heq | ⟨candidates, heq | heq⟩
    · rw [heq]
      exact ⟨.refl, fun _ => ⟨rfl, hidle, rfl⟩⟩
    · rw [heq]
      exact ⟨.single (.ring rfl (hline candidates)) (Or.inr rfl), fun hback => absurd rfl hback⟩
    · rw [heq]
      exact ⟨chain_continueCycle_tab ends clears s _ rfl (hline candidates),
        fun hback => absurd rfl hback⟩

/-! ### Reading and acting on a key -/

theorem press_of_none {s t : Session} {k : Key} (h : s.complete k = (none, t)) :
    s.press k = (.more, t) := by
  rw [press, h]

theorem press_of_some {s t : Session} {k k' : Key} (h : s.complete k = (some k', t)) :
    (s.press k).2 = (t.act k').2 ∧
      ((t.act k').1 ≠ none → ∃ e, (s.press k).1 = .done e) := by
  rw [press, h]
  simp only
  generalize t.act k' = acted
  obtain ⟨event, u⟩ := acted
  cases event with
  | none => exact ⟨rfl, fun hevent => absurd rfl hevent⟩
  | some event => exact ⟨rfl, fun _ => ⟨event, rfl⟩⟩

/-- What a key leads to that is no matter of completion. -/
def handled (s : Session) (k : Key) : FeedResult × Session :=
  ((s.act k).1.elim .more .done, (s.act k).2)

theorem press_of_complete {s t : Session} {k k' : Key} (h : s.complete k = (some k', t)) :
    s.press k = t.handled k' := by
  rw [press, h, handled]
  dsimp only
  rcases t.act k' with ⟨_ | event, u⟩ <;> rfl

private theorem chain_press {ends clears : Prop} {s : Session} (k : Key)
    (hends : (∃ e, (s.press k).1 = .done e) → ends) (hclears : k = .clearScreen → clears) :
    Chain ends clears s.shownLine (s.press k).2.shownLine s (s.press k).2 := by
  obtain ⟨hcomplete, hback⟩ := chain_complete ends clears s k
  cases hcompleted : s.complete k with
  | mk k' t =>
    rw [hcompleted] at hcomplete hback
    cases k' with
    | none => rwa [press_of_none hcompleted]
    | some k' =>
      obtain ⟨hkey, hidle, hline⟩ := hback (by simp)
      obtain rfl : k' = k := Option.some.inj hkey
      obtain ⟨hpress, hevent⟩ := press_of_some hcompleted
      have hact := chain_act hidle k' (fun h => hends (hevent h)) hclears
      simp only at hcomplete hline
      rw [hline] at hcomplete hact
      rw [hpress]
      exact hcomplete.of_first.trans hact

/-- What a session reads of its keyboard. -/
def reading (s : Session) : KeyReading := (s.decoder.read s.input).1

/-- A session that has read a key and not yet acted on it. -/
def afterReading (s : Session) : Session :=
  { s with
    decoder := (s.decoder.read s.input).2.1
    input := (s.decoder.read s.input).2.2 }

theorem feed_of_isTerminal {s : Session} (h : s.isTerminal = true) :
    s.feed = match (s.decoder.read s.input).1 with
      | .key k => s.afterReading.press k
      | .silent .notReady => (.more, s.afterReading)
      | .silent .ended => (.done .ended, s.afterReading.closeSlot)
      | .silent .failed => (.error (.io .device), s.afterReading) := by
  rw [feed, if_neg (by simp [h])]
  rfl

/-- **What a key does to the terminal.** It leads to a chain of actions, between which the line is
shown as it was before or as it is after the key. Hints are left out only if the edit ends, and only
one key clears the screen. -/
theorem feed_chain {s : Session} (h : s.isTerminal = true) :
    Chain (∃ e, s.feed.1 = .done e) (s.reading = .key .clearScreen) s.shownLine
      s.feed.2.shownLine s s.feed.2 := by
  have hread {ends clears : Prop} {last : Line} :
      Chain ends clears s.shownLine last s s.afterReading :=
    .single (.rest rfl rfl) (Or.inl rfl)
  rw [feed_of_isTerminal h]
  split
  · next k hkey =>
    exact hread.trans (chain_press k id fun hclears => hkey.trans (congrArg KeyReading.key hclears))
  · exact hread
  · exact .single (.rest rfl rfl) (Or.inl rfl)
  · exact hread

theorem feed_of_not_isTerminal {s : Session} (h : ¬s.isTerminal = true) :
    s.feed.2.display = s.display ∧ s.feed.2.shownLine = s.shownLine := by
  rw [feed, if_pos (by simpa using h)]
  exact ⟨rfl, rfl⟩

/-! ### The start -/

/-- A session starts with an empty line, either on input that is only read or on a terminal, whose
width has been found and on which the prompt is all that has been drawn. -/
theorem start_eq_ok {editor : Editor} {mode : RawMode} {input : Input} {output : Output}
    {prompt : Text} {s : Session} (h : start editor mode input output prompt = .ok s) :
    s = unopened editor input output prompt false ∨
      s = { unopened { editor with history := editor.history.beginLiveSlot }
              (findColumns editor.terminal input output).2.1
              ((findColumns editor.terminal input output).2.2.write prompt) prompt true with
            columns := (findColumns editor.terminal input output).1 } := by
  rw [start] at h
  generalize findColumns editor.terminal input output = found at h ⊢
  obtain ⟨columns, inputAfter, outputAfter⟩ := found
  by_cases hcapacity : editor.config.capacity = 0
  · rw [if_pos hcapacity] at h
    exact absurd h (by simp)
  · rw [if_neg hcapacity] at h
    simp only at h
    split at h
    · exact absurd h (by simp)
    · split at h
      · exact Or.inr (Except.ok.inj h).symm
      · exact Or.inl (Except.ok.inj h).symm

theorem start_eq_of_isTerminal {editor : Editor} {mode : RawMode} {input : Input}
    {output : Output} {prompt : Text} {s : Session}
    (h : start editor mode input output prompt = .ok s) (hterminal : s.isTerminal = true) :
    s = { unopened { editor with history := editor.history.beginLiveSlot }
            (findColumns editor.terminal input output).2.1
            ((findColumns editor.terminal input output).2.2.write prompt) prompt true with
          columns := (findColumns editor.terminal input output).1 } := by
  refine (start_eq_ok h).resolve_left ?_
  rintro rfl
  exact absurd hterminal Bool.false_ne_true

/-- What a session on a terminal starts with. -/
theorem start_on_terminal {editor : Editor} {mode : RawMode} {input : Input} {output : Output}
    {prompt : Text} {s : Session} (h : start editor mode input output prompt = .ok s)
    (hterminal : s.isTerminal = true) :
    s.output = (findColumns editor.terminal input output).2.2.write prompt ∧
      s.settings = ⟨prompt, (findColumns editor.terminal input output).1, true, editor.config,
        editor.hinter⟩ ∧
      s.shownLine = .empty editor.config.capacity ∧ s.drawState = .initial := by
  obtain rfl := start_eq_of_isTerminal h hterminal
  exact ⟨rfl, rfl, rfl, rfl⟩

/-- The prompt, the configuration and the hinter of a session are those it was started with. -/
theorem settings_start {editor : Editor} {mode : RawMode} {input : Input} {output : Output}
    {prompt : Text} {s : Session} (h : start editor mode input output prompt = .ok s)
    (hterminal : s.isTerminal = true) :
    s.settings.prompt = prompt ∧ s.settings.config = editor.config ∧
      s.settings.hinter = editor.hinter := by
  obtain ⟨-, hsettings, -⟩ := start_on_terminal h hterminal
  rw [hsettings]
  exact ⟨rfl, rfl, rfl⟩

/-! ### Any number of keys -/

/-- A session after some keys. -/
def fed (s : Session) : Nat → Session
  | 0 => s
  | n + 1 => (s.fed n).feed.2

theorem fed_feed (s : Session) (n : Nat) : s.feed.2.fed n = s.fed (n + 1) := by
  induction n with
  | zero => rfl
  | succ n ih => exact congrArg (fun t : Session => t.feed.2) ih

theorem settings_feed (s : Session) : s.feed.2.settings = s.settings := by
  by_cases h : s.isTerminal = true
  · exact (feed_chain h).settings_eq
  · exact congrArg SessionDisplay.settings (feed_of_not_isTerminal h).1

theorem settings_fed (s : Session) (n : Nat) : (s.fed n).settings = s.settings := by
  induction n with
  | zero => rfl
  | succ n ih => exact (settings_feed (s.fed n)).trans ih

/-- A drawing after some keys differs from others in the line alone. -/
theorem view_fed (s : Session) (n : Nat) (hints : Bool) :
    (s.fed n).view hints = s.settings.view (s.fed n).shownLine hints := by
  rw [view_eq, settings_fed]

end Session

end Typeline
