import Typeline.Proofs.History.Likeness
import Typeline.Proofs.Session.Calls
import Typeline.Proofs.Session.Runs

/-!
# What sessions have in common

A session is its edit, its keyboard and its terminal. What a key does to the edit does not depend on
the terminal, and what it does to the terminal comes down to writing, clearing the screen, and
drawing the line in one way or another. Here both are written down apart from each other, together
with the likenesses of keys, of results, and of all the other things that an edit deals with.

## Main definitions

* `Likeness.Keys`, `Likeness.Edits`, `Likeness.Results` : keys, edits and results alike.
* `DisplayRelation` : what is kept of two terminals by everything that is done to them.

## Main results

* `Session.edit_insertChar`, `Session.edit_enter` : what typing and entering do to the edit.
* `Session.display_insertChar`, `Session.display_enter` : what they do to the terminal.
-/

namespace Typeline

/-- The character that a key types, if it types one. -/
def Key.char? : Key → Option Char
  | .char c => some c
  | _ => none

/-! ### Likenesses of what a session works on -/

namespace Likeness

variable (r : Likeness)

/-- The same key, or characters that stand for each other. -/
inductive Keys : Key → Key → Prop where
  /-- Two characters. -/
  | char {c d : Char} (chars : r.Chars c d) : Keys (.char c) (.char d)
  /-- Any other key. -/
  | plain {k : Key} (notChar : ∀ c, k ≠ .char c) : Keys k k

/-- Keys alike, or no key for the same reason. -/
inductive Readings : KeyReading → KeyReading → Prop where
  /-- Two keys. -/
  | key {k k' : Key} (keys : r.Keys k k') : Readings (.key k) (.key k')
  /-- No key. -/
  | silent (s : Silence) : Readings (.silent s) (.silent s)

variable {r} in
private theorem keys_iff {k k' : Key} : r.Keys k k' ↔
    (∃ c ∈ k.char?, ∃ d ∈ k'.char?, r.Chars c d) ∨ k.char? = none ∧ k' = k := by
  constructor
  · intro h
    cases h with
    | char hchars => exact Or.inl ⟨_, rfl, _, rfl, hchars⟩
    | plain hplain =>
      cases k with
      | char c => exact absurd rfl (hplain c)
      | _ => exact Or.inr ⟨rfl, rfl⟩
  · rintro (⟨c, hc, d, hd, hchars⟩ | ⟨hnone, rfl⟩)
    · cases k with
      | char c' =>
        cases k' with
        | char d' =>
          obtain rfl := Option.some.inj hc
          obtain rfl := Option.some.inj hd
          exact .char hchars
        | _ => exact absurd hd (Option.not_mem_none d)
      | _ => exact absurd hc (Option.not_mem_none c)
    · refine .plain fun c hc => ?_
      rw [hc] at hnone
      exact absurd hnone (Option.some_ne_none c)

-- The instances for options are named, as there are others, which go through all characters.
instance [∀ c d, Decidable (r.Chars c d)] (k k' : Key) : Decidable (r.Keys k k') :=
  letI (c : Char) : Decidable (∃ d ∈ k'.char?, r.Chars c d) := Option.decidableExistsMem k'.char?
  letI : Decidable (∃ c ∈ k.char?, ∃ d ∈ k'.char?, r.Chars c d) :=
    Option.decidableExistsMem k.char?
  decidable_of_iff' _ keys_iff

instance [∀ c d, Decidable (r.Chars c d)] (x y : KeyReading) : Decidable (r.Readings x y) :=
  match x, y with
  | .key k, .key k' => decidable_of_iff (r.Keys k k') ⟨.key, fun | .key h => h⟩
  | .silent s, .silent s' =>
    decidable_of_iff (s = s') ⟨fun h => h ▸ .silent s, fun | .silent _ => rfl⟩
  | .key _, .silent _ => isFalse nofun
  | .silent _, .key _ => isFalse nofun

/-- The same end of an edit, with lines alike. -/
inductive Events : EditEvent → EditEvent → Prop where
  /-- Two lines. -/
  | line {t u : Text} (texts : r.Texts t u) : Events (.line t) (.line u)
  /-- The end of the input. -/
  | ended : Events .ended .ended
  /-- The edit was given up. -/
  | interrupted : Events .interrupted .interrupted

/-- The same result of a key, with events alike. -/
inductive Results : FeedResult → FeedResult → Prop where
  /-- The edit goes on. -/
  | more : Results .more .more
  /-- The edit is over. -/
  | done {e e' : EditEvent} (events : r.Events e e') : Results (.done e) (.done e')
  /-- Reading failed. -/
  | error (e : EditError) : Results (.error e) (.error e)

/-- Completers that find candidates alike for texts alike. -/
def Completers (f g : Completer) : Prop :=
  ∀ t u, r.Texts t u → List.Forall₂ r.Texts (f t) (g u)

/-- Edits that are alike but perhaps for the places of the cursors. -/
structure Edits (e e' : SessionEdit) : Prop where
  text : r.Texts e.line.text e'.line.text
  cycle_eq : e'.cycle = e.cycle
  candidates : List.Forall₂ r.Texts e.candidates e'.candidates
  completer : Option.Rel r.Completers e.completer e'.completer
  history : r.Histories e.history e'.history
  historyIndex_eq : e'.historyIndex = e.historyIndex
  finished_eq : e'.finished = e.finished

end Likeness

section Same

variable {A : Alphabet}

/-- A key that types nothing else than a character of an alphabet. -/
def Key.SpelledIn (A : Alphabet) (k : Key) : Prop := ∀ c ∈ k.char?, c ∈ A

instance [DecidablePred (· ∈ A)] (k : Key) : Decidable (k.SpelledIn A) :=
  Option.decidableForallMem k.char?

namespace Likeness

theorem readings_equality (x : KeyReading) : equality.Readings x x := by
  cases x with
  | silent s => exact .silent s
  | key k =>
    cases k with
    | char c => exact .key (.char rfl)
    | _ => exact .key (.plain fun _ => Key.noConfusion)

theorem Results.eq_of_equality {x y : FeedResult} (h : equality.Results x y) : y = x := by
  cases h with
  | more => rfl
  | error e => rfl
  | done hevents =>
    cases hevents with
    | line htexts => rw [show _ = _ from htexts]
    | ended => rfl
    | interrupted => rfl

theorem readings_same {x : KeyReading} (h : ∀ k ∈ x.key?, k.SpelledIn A) :
    (CharLikeness.same A).likeness.Readings x x := by
  cases x with
  | silent s => exact .silent s
  | key k =>
    have hk : k.SpelledIn A := h k rfl
    cases k with
    | char c => exact .key (.char ⟨rfl, hk c rfl⟩)
    | _ => exact .key (.plain fun _ => Key.noConfusion)

end Likeness

end Same

/-- The same call, or more input, which need not be the same. -/
inductive SessionCall.Matches : SessionCall → SessionCall → Prop where
  /-- The same call. -/
  | same (c : SessionCall) : Matches c c
  /-- More input. -/
  | push (more more' : List Reading) : Matches (.push more) (.push more')

/-! ### What is done to the terminal -/

namespace SessionDisplay

/-- Write a text. -/
def write (d : SessionDisplay) (t : Text) : SessionDisplay := { d with output := d.output.write t }

/-- Clear the screen. -/
def clear (d : SessionDisplay) : SessionDisplay :=
  { d with output := clearScreen d.output, drawState := .initial }

/-- Draw a line, with hints or without. -/
def draw (d : SessionDisplay) (line : Line) (mode : RefreshMode) (hints : Bool) :
    SessionDisplay :=
  let drawing := (d.settings.view line hints).draw d.drawState mode
  { d.write drawing.text with
    drawState := drawing.state
    inRange := d.inRange && drawing.inRange }

/-- Show a character that has just been typed into a line. -/
def type (d : SessionDisplay) (line : Line) (atEnd : Bool) (c : Char) : SessionDisplay :=
  if atEnd && backwardLength line.before line.after == c.utf8Size
      && promptWidth d.settings.prompt + contentWidth d.settings.config.masked line.text
        < d.settings.columns
      && !d.settings.config.multiline && d.settings.hinter.isNone then
    d.write [if d.settings.config.masked then maskGlyph else c]
  else d.draw line .all true

/-- The line when it is entered. -/
def entered (d : SessionDisplay) (line : Line) : Line :=
  if d.settings.config.multiline then line.moveEnd.getD line else line

/-- Show a line that is entered. -/
def enter (d : SessionDisplay) (line : Line) : SessionDisplay :=
  let moved :=
    if d.settings.config.multiline then
      match line.moveEnd with
      | some line => d.draw line .all true
      | none => d
    else d
  if d.settings.hinter.isSome then moved.draw (d.entered line) .all false else moved

end SessionDisplay

/-- A relation of two terminals that is kept by everything that two sessions do to them when their
lines are alike. -/
structure DisplayRelation (r : Likeness) where
  Holds : SessionDisplay → SessionDisplay → Prop
  write {d d' : SessionDisplay} (t : Text) : Holds d d' → Holds (d.write t) (d'.write t)
  clear {d d' : SessionDisplay} : Holds d d' → Holds d.clear d'.clear
  draw {d d' : SessionDisplay} {l l' : Line} (mode : RefreshMode) (hints : Bool) :
    Holds d d' → r.Lines l l' → Holds (d.draw l mode hints) (d'.draw l' mode hints)
  type {d d' : SessionDisplay} {l l' : Line} {c c' : Char} (atEnd : Bool) :
    Holds d d' → r.Lines l l' → r.Chars c c' → Holds (d.type l atEnd c) (d'.type l' atEnd c')
  enter {d d' : SessionDisplay} {l l' : Line} :
    Holds d d' → r.Lines l l' → Holds (d.enter l) (d'.enter l')

namespace Session

/-! ### What a key does, as seen in the edit and on the terminal -/

section Parts

variable (s : Session)

private theorem display_refreshWith (mode : RefreshMode) (hints : Bool) :
    (s.refreshWith mode hints).display = s.display.draw s.shownLine mode hints := rfl

private theorem display_refresh (mode : RefreshMode) :
    (s.refresh mode).display = s.display.draw s.shownLine mode true := rfl

/-- A session that is about to enter its line: the live slot is closed, and the cursor stands where
it is left. -/
def entering (s : Session) : Session :=
  if s.editor.config.multiline then s.closeSlot.change s.line.moveEnd else s.closeSlot

theorem enter_eq : s.enter =
    (.line s.enter.2.line.text,
      if s.entering.editor.hinter.isSome then s.entering.refreshWith .all false
      else s.entering) := rfl

private theorem settings_entering : s.entering.settings = s.settings := by
  rw [entering]
  split
  · cases s.line.moveEnd <;> rfl
  · rfl

theorem edit_entering : s.entering.edit =
    { s.edit with line := s.display.entered s.line, history := s.editor.history.endLiveSlot } := by
  rw [entering, SessionDisplay.entered]
  by_cases hrows : s.editor.config.multiline = true
  · rw [if_pos hrows, edit_change]
    exact congrArg (fun line => { s.edit with line, history := s.editor.history.endLiveSlot })
      (if_pos hrows).symm
  · rw [if_neg hrows]
    exact congrArg (fun line => { s.edit with line, history := s.editor.history.endLiveSlot })
      (if_neg hrows).symm

theorem edit_enter : s.enter.2.edit =
    { s.edit with line := s.display.entered s.line, history := s.editor.history.endLiveSlot } := by
  rw [enter_eq, ← edit_entering]
  dsimp only
  split <;> rfl

variable {s} (hidle : s.cycle = .idle)

include hidle

theorem display_refresh_of_idle (line : Line) :
    ({ s with line }.refresh .all).display = s.display.draw line .all true := by
  have hline : { s with line }.shownLine = line := shownLine_of_idle hidle
  rw [display_refresh, hline]
  rfl

private theorem display_change (line : Option Line) :
    (s.change line).display =
      match line with
      | some line => s.display.draw line .all true
      | none => s.display := by
  cases line with
  | none => rfl
  | some line => exact display_refresh_of_idle hidle line

theorem display_insertChar (c : Char) :
    (s.insertChar c).display =
      match s.line.insert [c] with
      | some line => s.display.type line s.line.atEnd c
      | none => s.display := by
  rw [insertChar]
  cases s.line.insert [c] with
  | none => rfl
  | some line =>
    by_cases hplain : { s with line }.isPlainInsertion s.line.atEnd c = true
    · simp only [hplain, if_true]
      exact (if_pos hplain).symm
    · simp only [hplain]
      exact (display_refresh_of_idle hidle line).trans (if_neg hplain).symm

theorem display_enter : s.enter.2.display = s.display.enter s.line := by
  have hline : s.entering.shownLine = s.display.entered s.line := by
    have hcycle : s.entering.cycle = .idle := by
      have hedit := congrArg SessionEdit.cycle s.edit_entering
      exact hedit.trans hidle
    rw [shownLine_of_idle hcycle]
    exact congrArg SessionEdit.line s.edit_entering
  have hmoved : s.entering.display =
      if s.editor.config.multiline then
        match s.line.moveEnd with
        | some line => s.display.draw line .all true
        | none => s.display
      else s.display := by
    rw [entering]
    split
    · exact display_change (s := s.closeSlot) hidle _
    · rfl
  have hhinter : s.entering.editor.hinter = s.editor.hinter :=
    congrArg SessionSettings.hinter s.settings_entering
  rw [enter_eq, SessionDisplay.enter]
  dsimp only
  rw [hhinter]
  by_cases hhint : s.editor.hinter.isSome = true
  · rw [if_pos hhint, display_refreshWith, hline, hmoved]
    exact (if_pos hhint).symm
  · rw [if_neg hhint, hmoved]
    exact (if_neg hhint).symm

end Parts

theorem text_entered (d : SessionDisplay) (line : Line) : (d.entered line).text = line.text := by
  rw [SessionDisplay.entered, Line.moveEnd]
  split
  · split
    · rfl
    · simp [Line.text]
  · rfl

theorem enter_fst (s : Session) : s.enter.1 = .line s.line.text := by
  have hline : s.enter.2.line = s.display.entered s.line := congrArg SessionEdit.line s.edit_enter
  have htext : s.enter.1 = .line s.enter.2.line.text := rfl
  rw [htext, hline, text_entered]

end Session

end Typeline
