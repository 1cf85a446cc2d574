import Typeline.Proofs.Edit.Capacity
import Typeline.Proofs.Session.Feed

/-!
# What calls make of the line and the history

A program that edits a line calls `feed` for every key, and in between it may hide the line, show
it, print above it, or find that more input has come. Of all keys only the two that browse change
the history and the place in it, apart from the live slot, which is closed when the edit ends; and
whatever a call does to the line is a matter of the operations of editing.

## Main definitions

* `SessionCall`, `Session.driven` : the calls on a session, and a session after some of them.
* `HistoryView` : what a session has to do with the history.
* `SessionEdit` : a session apart from its keyboard and its terminal.
* `Session.key?`, `Session.direction?` : the key that a call reads, and whether it browses.
* `Session.Ongoing` : the edit is not over.

## Main results

* `Session.edit_called_of_key?_eq_none` : what a call does that reads no key.
* `Session.called_of_direction?` : what a key that browses does.
* `Session.historyView_called` : what any other call does to the history.
* `Session.exists_edited_called` : what a call does to the line.
-/

namespace Typeline

/-- A call on a session before its end. -/
inductive SessionCall where
  /-- Read one key and act on it. -/
  | feed
  /-- Erase the line from the terminal. -/
  | hide
  /-- Draw the line where nothing is drawn. -/
  | reveal
  /-- Write a text above the line. -/
  | printAbove (t : Text)
  /-- Not a call, but more input that has come. -/
  | push (more : List Reading)
  deriving DecidableEq, Repr

/-- The direction in which a key browses, if it does. -/
def Key.direction? : Key → Option BrowseDirection
  | .up => some .older
  | .down => some .newer
  | _ => none

/-- The key that has been read, if one has. -/
def KeyReading.key? : KeyReading → Option Key
  | .key k => some k
  | .silent _ => none

/-- What a session has to do with the history. -/
structure HistoryView where
  /-- The history. -/
  history : History
  /-- The entry that is edited, counted from the newest one. -/
  index : Nat
  /-- Whether the session has been finished. -/
  finished : Bool

/-- A session apart from its keyboard and its terminal. -/
structure SessionEdit where
  /-- The line. -/
  line : Line
  /-- Where the cycle through the candidates stands. -/
  cycle : CompletionCycle
  /-- The candidates of the cycle. -/
  candidates : List Text
  /-- The source of completions. -/
  completer : Option Completer
  /-- The history. -/
  history : History
  /-- The entry that is edited, counted from the newest one. -/
  historyIndex : Nat
  /-- Whether the session has been finished. -/
  finished : Bool

/-- What an edit has to do with the history. -/
def SessionEdit.historyView (e : SessionEdit) : HistoryView :=
  ⟨e.history, e.historyIndex, e.finished⟩

/-- It can be told whether a key has ended the edit. -/
instance FeedResult.decidableIsDone (r : FeedResult) : Decidable (∃ e, r = .done e) :=
  match r with
  | .more => isFalse (by simp)
  | .done e => isTrue ⟨e, rfl⟩
  | .error _ => isFalse (by simp)

namespace Session

/-- What a session has to do with the history. -/
def historyView (s : Session) : HistoryView := ⟨s.editor.history, s.historyIndex, s.finished⟩

/-- A session apart from its keyboard and its terminal. -/
def edit (s : Session) : SessionEdit :=
  ⟨s.line, s.cycle, s.candidates, s.editor.completer, s.editor.history, s.historyIndex, s.finished⟩

/-- A session after a call. -/
def called (s : Session) : SessionCall → Session
  | .feed => s.feed.2
  | .hide => s.hide
  | .reveal => s.reveal
  | .printAbove t => s.printAbove t
  | .push more => { s with input := s.input.push more }

/-- A session after the first calls of a sequence. -/
def driven (s : Session) (calls : Nat → SessionCall) : Nat → Session
  | 0 => s
  | n + 1 => (s.driven calls n).called (calls n)

/-- The key that a call reads. Input that is no terminal has no keys. -/
def key? (s : Session) : SessionCall → Option Key
  | .feed => if s.isTerminal then (s.decoder.read s.input).1.key? else none
  | _ => none

/-- The direction in which a call browses, if it reads a key that does. -/
def direction? (s : Session) (c : SessionCall) : Option BrowseDirection :=
  (s.key? c).bind Key.direction?

/-- A call ends the edit. -/
def Ends (s : Session) (c : SessionCall) : Prop := c = .feed ∧ ∃ e, s.feed.1 = .done e

instance (s : Session) (c : SessionCall) : Decidable (s.Ends c) :=
  inferInstanceAs (Decidable (_ ∧ _))

/-- None of the first calls ends the edit. -/
def Ongoing (s : Session) (calls : Nat → SessionCall) (n : Nat) : Prop :=
  ∀ m < n, ¬(s.driven calls m).Ends (calls m)

instance (s : Session) (calls : Nat → SessionCall) (n : Nat) : Decidable (s.Ongoing calls n) :=
  inferInstanceAs (Decidable (∀ m < n, _))

theorem Ongoing.mono {s : Session} {calls : Nat → SessionCall} {m n : Nat}
    (h : s.Ongoing calls n) (hm : m ≤ n) : s.Ongoing calls m :=
  fun k hk => h k (Nat.lt_of_lt_of_le hk hm)

/-! ### Drawings and changes of the line -/

theorem edit_change (s : Session) (line : Option Line) :
    (s.change line).edit = { s.edit with line := line.getD s.line } := by
  cases line <;> rfl

@[simp] theorem historyView_change (s : Session) (line : Option Line) :
    (s.change line).historyView = s.historyView :=
  congrArg SessionEdit.historyView (s.edit_change line)

theorem line_change (s : Session) (line : Option Line) :
    (s.change line).line = line.getD s.line :=
  congrArg SessionEdit.line (s.edit_change line)

private theorem cycle_change (s : Session) (line : Option Line) : (s.change line).cycle = s.cycle :=
  congrArg SessionEdit.cycle (s.edit_change line)

theorem edit_insertChar (s : Session) (c : Char) :
    (s.insertChar c).edit = { s.edit with line := (s.line.insert [c]).getD s.line } := by
  rw [insertChar]
  cases s.line.insert [c] with
  | none => rfl
  | some line =>
    dsimp only
    split <;> rfl

@[simp] theorem historyView_insertChar (s : Session) (c : Char) :
    (s.insertChar c).historyView = s.historyView :=
  congrArg SessionEdit.historyView (s.edit_insertChar c)

private theorem line_insertChar (s : Session) (c : Char) :
    (s.insertChar c).line = (Line.Operation.insert [c]).apply s.line :=
  congrArg SessionEdit.line (s.edit_insertChar c)

private theorem historyView_enter (s : Session) :
    s.enter.2.historyView = s.closeSlot.historyView := by
  rw [enter]
  dsimp only
  split <;> split
  · exact historyView_change _ _
  · exact historyView_change _ _
  · rfl
  · rfl

private theorem line_enter (s : Session) :
    s.enter.2.line = s.line ∨ s.enter.2.line = Line.Operation.moveEnd.apply s.line := by
  rw [enter]
  dsimp only
  split <;> split
  · exact Or.inr (line_change _ _)
  · exact Or.inr (line_change _ _)
  · exact Or.inl rfl
  · exact Or.inl rfl

/-! ### Acting on a key -/

/-- A key that does not browse ends the edit, and then the live slot is closed, or it leaves the
history alone. -/
theorem historyView_act (s : Session) {k : Key} (hk : k.direction? = none) :
    (s.act k).2.historyView = s.historyView ∨
      (s.act k).2.historyView = s.closeSlot.historyView ∧ (s.act k).1 ≠ none := by
  cases k with
  | up | down => exact absurd hk (by simp [Key.direction?])
  | enter => exact Or.inr ⟨s.historyView_enter, by simp [act]⟩
  | interrupt => exact Or.inr ⟨rfl, by simp [act]⟩
  | deleteOrEnd =>
    rw [act]
    split
    · exact Or.inr ⟨rfl, by simp⟩
    · exact Or.inl (historyView_change s _)
  | char c => exact Or.inl (historyView_insertChar s c)
  | clearScreen | tab | escape | ignored => exact Or.inl rfl
  | _ => exact Or.inl (historyView_change s _)

private theorem historyView_browse (s : Session) (d : BrowseDirection) :
    (s.browse d).historyView =
      ⟨(s.editor.history.browse s.historyIndex s.line.text d).1,
        (s.editor.history.browse s.historyIndex s.line.text d).2.1, s.finished⟩ :=
  historyView_change { s.withHistory _ with historyIndex := _ } _

theorem line_browse (s : Session) (d : BrowseDirection) :
    (s.browse d).line =
      ((s.editor.history.browse s.historyIndex s.line.text d).2.2.map s.line.setText).getD s.line :=
  line_change _ _

/-- Acting on a key is a matter of the operations on lines. -/
theorem exists_edited_act (s : Session) (k : Key) :
    ∃ ops, (s.act k).2.line = s.line.edited ops := by
  have hchange (op : Line.Operation) :
      ∃ ops, (s.change (op.result? s.line)).line = s.line.edited ops :=
    ⟨[op], line_change s _⟩
  have hbrowse (direction : BrowseDirection) :
      ∃ ops, (s.browse direction).line = s.line.edited ops := by
    rw [line_browse]
    cases (s.editor.history.browse s.historyIndex s.line.text direction).2.2 with
    | none => exact ⟨[], rfl⟩
    | some entry => exact ⟨[.setText entry], rfl⟩
  have hdelete := hchange .delete
  cases k with
  | enter =>
    rcases s.line_enter with hline | hline
    · exact ⟨[], hline⟩
    · exact ⟨[.moveEnd], hline⟩
  | deleteOrEnd =>
    rw [act]
    split
    · exact ⟨[], rfl⟩
    · exact hdelete
  | char c => exact ⟨[.insert [c]], s.line_insertChar c⟩
  | up => exact hbrowse .older
  | down => exact hbrowse .newer
  | delete => exact hdelete
  | backspace => exact hchange .backspace
  | transpose => exact hchange .transpose
  | left => exact hchange .left
  | right => exact hchange .right
  | home => exact hchange .home
  | lineEnd => exact hchange .moveEnd
  | killLine => exact hchange .clear
  | killToEnd => exact hchange .killToEnd
  | deleteWord => exact hchange .deleteWord
  | interrupt | clearScreen | tab | escape | ignored => exact ⟨[], rfl⟩

/-! ### Completion -/

private theorem historyView_continueCycle (s : Session) (k : Key) :
    (s.continueCycle k).2.historyView = s.historyView := by
  by_cases htab : k = .tab
  · subst htab
    rw [continueCycle]
    dsimp only
    split <;> rfl
  · by_cases hescape : k = .escape
    · subst hescape
      rfl
    · rw [continueCycle_of_ne htab hescape]
      rfl

theorem exists_edited_shownLine (s : Session) : ∃ ops, s.shownLine = s.line.edited ops := by
  rw [← accepted_eq_shownLine]
  cases s.cycle.index.bind (s.candidates[·]?) with
  | none => exact ⟨[], rfl⟩
  | some candidate => exact ⟨[.setText candidate], rfl⟩

private theorem exists_edited_continueCycle (s : Session) (k : Key) :
    ∃ ops, (s.continueCycle k).2.line = s.line.edited ops := by
  by_cases htab : k = .tab
  · subst htab
    refine ⟨[], ?_⟩
    rw [continueCycle]
    dsimp only
    split <;> rfl
  · by_cases hescape : k = .escape
    · subst hescape
      exact ⟨[], rfl⟩
    · rw [continueCycle_of_ne htab hescape]
      exact s.exists_edited_shownLine

private theorem historyView_complete (s : Session) (k : Key) :
    (s.complete k).2.historyView = s.historyView := by
  by_cases hactive : s.cycle.isActive = true
  · rw [complete_of_active hactive, historyView_continueCycle]
  · rcases complete_of_idle (idle_of_not_isActive hactive) k with heq | ⟨candidates, heq | heq⟩
    · rw [heq]
    · rw [heq]
      rfl
    · rw [heq, historyView_continueCycle]
      rfl

private theorem exists_edited_complete (s : Session) (k : Key) :
    ∃ ops, (s.complete k).2.line = s.line.edited ops := by
  by_cases hactive : s.cycle.isActive = true
  · rw [complete_of_active hactive]
    exact s.exists_edited_continueCycle k
  · rcases complete_of_idle (idle_of_not_isActive hactive) k with heq | ⟨candidates, heq | heq⟩
    · rw [heq]
      exact ⟨[], rfl⟩
    · rw [heq]
      exact ⟨[], rfl⟩
    · rw [heq]
      exact exists_edited_continueCycle { s with candidates } .tab

/-- A key that comes back from completion is the one that was read. -/
theorem complete_fst (s : Session) (k : Key) :
    (s.complete k).1 = none ∨ (s.complete k).1 = some k := by
  by_cases hactive : s.cycle.isActive = true
  · rw [complete_of_active hactive]
    by_cases htab : k = .tab
    · subst htab
      exact Or.inl rfl
    · by_cases hescape : k = .escape
      · subst hescape
        exact Or.inl rfl
      · rw [continueCycle_of_ne htab hescape]
        exact Or.inr rfl
  · rcases complete_of_idle (idle_of_not_isActive hactive) k with heq | ⟨candidates, heq | heq⟩
    · exact Or.inr (congrArg Prod.fst heq)
    · exact Or.inl (congrArg Prod.fst heq)
    · exact Or.inl (congrArg Prod.fst heq)

/-- A key that is no matter of completion finds the line as it was shown. -/
theorem complete_of_ne {s : Session} {k : Key} (htab : k ≠ .tab) (hescape : k ≠ .escape) :
    ∃ t, s.complete k = (some k, t) ∧ t.historyView = s.historyView ∧ t.line = s.shownLine ∧
      t.cycle = .idle := by
  by_cases hactive : s.cycle.isActive = true
  · rw [complete_of_active hactive, continueCycle_of_ne htab hescape]
    exact ⟨_, rfl, rfl, rfl, rfl⟩
  · have hidle := idle_of_not_isActive hactive
    exact ⟨s, complete_of_idle_of_ne hidle htab, rfl, (shownLine_of_idle hidle).symm, hidle⟩

/-! ### Reading a key and acting on it -/

private theorem historyView_press (s : Session) {k : Key} (hk : k.direction? = none) :
    (s.press k).2.historyView = s.historyView ∨
      (s.press k).2.historyView = s.closeSlot.historyView ∧ ∃ e, (s.press k).1 = .done e := by
  have hview := s.historyView_complete k
  cases hcompleted : s.complete k with
  | mk k' t =>
    rw [hcompleted] at hview
    cases k' with
    | none =>
      rw [press_of_none hcompleted]
      exact Or.inl hview
    | some k' =>
      obtain ⟨hpress, hevent⟩ := press_of_some hcompleted
      obtain rfl : k' = k := by
        have hsame := s.complete_fst k
        rw [hcompleted] at hsame
        simpa using hsame
      rw [hpress]
      rcases t.historyView_act hk with hact | ⟨hact, hend⟩
      · exact Or.inl (hact.trans hview)
      · refine Or.inr ⟨hact.trans ?_, hevent hend⟩
        exact congrArg (fun v => { v with history := v.history.endLiveSlot }) hview

private theorem exists_edited_press (s : Session) (k : Key) :
    ∃ ops, (s.press k).2.line = s.line.edited ops := by
  obtain ⟨ops, hline⟩ := s.exists_edited_complete k
  cases hcompleted : s.complete k with
  | mk k' t =>
    rw [hcompleted] at hline
    cases k' with
    | none =>
      rw [press_of_none hcompleted]
      exact ⟨ops, hline⟩
    | some k' =>
      obtain ⟨ops', hact⟩ := t.exists_edited_act k'
      rw [(press_of_some hcompleted).1, hact]
      exact ⟨ops ++ ops', by rw [hline, Line.edited_append]⟩

/-- A key that browses accepts the candidate that is shown and then recalls an entry. -/
theorem press_of_direction? {s : Session} {k : Key} {d : BrowseDirection}
    (hk : k.direction? = some d) :
    ∃ t : Session, s.press k = (.more, t.browse d) ∧ t.historyView = s.historyView ∧
      t.line = s.shownLine ∧ t.cycle = .idle := by
  have hkey : k ≠ .tab ∧ k ≠ .escape := by
    constructor <;> rintro rfl <;> exact absurd hk (by simp [Key.direction?])
  obtain ⟨t, hcomplete, hsame⟩ := complete_of_ne (s := s) hkey.1 hkey.2
  refine ⟨t, ?_, hsame⟩
  rw [press, hcomplete]
  cases k with
  | up | down =>
    obtain rfl := Option.some.inj hk
    rfl
  | _ => exact absurd hk (by simp [Key.direction?])

theorem feed_of_key? {s : Session} {k : Key} (h : s.key? .feed = some k) :
    s.feed = s.afterReading.press k := by
  rw [key?] at h
  split at h
  · next hterminal =>
    rw [feed_of_isTerminal hterminal]
    cases hread : (s.decoder.read s.input).1 with
    | key k' =>
      rw [hread] at h
      obtain rfl := Option.some.inj h
      rfl
    | silent r =>
      rw [hread] at h
      exact absurd h (by simp [KeyReading.key?])
  · exact absurd h (by simp)

/-! ### Calls that read no key -/

theorem hide_of_isTerminal {s : Session} (h : s.isTerminal = true) : s.hide = s.refresh .clean :=
  if_pos h

theorem reveal_of_isTerminal {s : Session} (h : s.isTerminal = true) :
    s.reveal = s.refresh .write :=
  if_pos h

@[simp] theorem edit_hide (s : Session) : s.hide.edit = s.edit := by
  rw [hide]
  split <;> rfl

@[simp] theorem edit_reveal (s : Session) : s.reveal.edit = s.edit := by
  rw [reveal]
  split <;> rfl

theorem edit_printAbove (s : Session) (t : Text) : (s.printAbove t).edit = s.edit :=
  (edit_reveal (s.hide.write (linesAbove t))).trans s.edit_hide

@[simp] theorem settings_hide (s : Session) : s.hide.settings = s.settings := by
  rw [hide]
  split <;> rfl

@[simp] theorem settings_reveal (s : Session) : s.reveal.settings = s.settings := by
  rw [reveal]
  split <;> rfl

theorem settings_printAbove (s : Session) (t : Text) : (s.printAbove t).settings = s.settings :=
  (settings_reveal (s.hide.write (linesAbove t))).trans s.settings_hide

/-- **A call that reads no key** leaves the edit alone, or the input is over and with it the edit,
and then the live slot is closed. -/
theorem edit_called_of_key?_eq_none {s : Session} {c : SessionCall} (h : s.key? c = none) :
    (s.called c).edit = s.edit ∨ (s.called c).edit = s.closeSlot.edit ∧ s.Ends c := by
  cases c with
  | feed =>
    rw [called]
    by_cases hterminal : s.isTerminal = true
    · rw [key?, if_pos hterminal] at h
      rw [feed_of_isTerminal hterminal]
      split
      · next k hread =>
        rw [hread] at h
        exact absurd h (by simp [KeyReading.key?])
      · exact Or.inl rfl
      · next hread =>
        refine Or.inr ⟨rfl, rfl, .ended, ?_⟩
        rw [feed_of_isTerminal hterminal, hread]
      · exact Or.inl rfl
    · rw [feed, if_pos (by simpa using hterminal)]
      exact Or.inl rfl
  | hide => exact Or.inl s.edit_hide
  | reveal => exact Or.inl s.edit_reveal
  | printAbove t => exact Or.inl (s.edit_printAbove t)
  | push more => exact Or.inl rfl

/-- It leaves the line alone. -/
theorem called_of_key?_eq_none {s : Session} {c : SessionCall} (h : s.key? c = none) :
    (s.called c).line = s.line ∧ (s.called c).cycle = s.cycle ∧
      ((s.called c).historyView = s.historyView ∨
        (s.called c).historyView = s.closeSlot.historyView ∧ s.Ends c) := by
  rcases edit_called_of_key?_eq_none h with hedit | ⟨hedit, hends⟩
  · exact ⟨congrArg SessionEdit.line hedit, congrArg SessionEdit.cycle hedit,
      Or.inl (congrArg SessionEdit.historyView hedit)⟩
  · exact ⟨congrArg SessionEdit.line hedit, congrArg SessionEdit.cycle hedit,
      Or.inr ⟨congrArg SessionEdit.historyView hedit, hends⟩⟩

/-! ### Any call -/

/-- **A call that browses.** It goes from the line that is shown to an entry of the history. -/
theorem called_of_direction? {s : Session} {c : SessionCall} {d : BrowseDirection}
    (h : s.direction? c = some d) :
    ¬s.Ends c ∧
      (s.called c).historyView =
        ⟨(s.editor.history.browse s.historyIndex s.shownLine.text d).1,
          (s.editor.history.browse s.historyIndex s.shownLine.text d).2.1, s.finished⟩ ∧
      (s.called c).line =
        ((s.editor.history.browse s.historyIndex s.shownLine.text d).2.2.map
          s.shownLine.setText).getD s.shownLine ∧
      (s.called c).cycle = .idle := by
  obtain ⟨k, hkey, hdirection⟩ := Option.bind_eq_some_iff.mp h
  cases c with
  | feed =>
    obtain ⟨t, hpress, hview, hline, hcycle⟩ := press_of_direction? (s := s.afterReading) hdirection
    have hfeed := (feed_of_key? hkey).trans hpress
    have hhistory : t.editor.history = s.editor.history := congrArg HistoryView.history hview
    have hindex : t.historyIndex = s.historyIndex := congrArg HistoryView.index hview
    have hfinished : t.finished = s.finished := congrArg HistoryView.finished hview
    have hshown : t.line = s.shownLine := hline
    rw [← hhistory, ← hindex, ← hshown, ← hfinished, called, hfeed]
    refine ⟨?_, t.historyView_browse d, t.line_browse d, (cycle_change _ _).trans hcycle⟩
    rintro ⟨-, e, hdone⟩
    rw [hfeed] at hdone
    exact absurd hdone (by simp)
  | _ => exact absurd hkey (by simp [key?])

/-- **A call that does not browse.** It leaves the history alone, or it ends the edit and the live
slot is closed. -/
theorem historyView_called {s : Session} {c : SessionCall} (h : s.direction? c = none) :
    (s.called c).historyView = s.historyView ∨
      (s.called c).historyView = s.closeSlot.historyView ∧ s.Ends c := by
  cases hkey : s.key? c with
  | none => exact (called_of_key?_eq_none hkey).2.2
  | some k =>
    rw [direction?, hkey] at h
    cases c with
    | feed =>
      rw [called, Ends, feed_of_key? hkey]
      rcases s.afterReading.historyView_press h with hsame | ⟨hclosed, hend⟩
      · exact Or.inl hsame
      · exact Or.inr ⟨hclosed, rfl, hend⟩
    | _ => exact absurd hkey (by simp [key?])

theorem history_called {s : Session} {c : SessionCall} (h : s.direction? c = none) :
    (s.called c).editor.history = s.editor.history ∨
      (s.called c).editor.history = s.editor.history.endLiveSlot ∧ s.Ends c :=
  (historyView_called h).imp (congrArg HistoryView.history)
    (And.imp_left (congrArg HistoryView.history))

theorem history_called_of_direction? {s : Session} {c : SessionCall} {d : BrowseDirection}
    (h : s.direction? c = some d) :
    (s.called c).editor.history =
      (s.editor.history.browse s.historyIndex s.shownLine.text d).1 :=
  congrArg HistoryView.history (called_of_direction? h).2.1

theorem finished_called (s : Session) (c : SessionCall) : (s.called c).finished = s.finished := by
  cases h : s.direction? c with
  | none =>
    rcases historyView_called h with hview | ⟨hview, -⟩
    · exact congrArg HistoryView.finished hview
    · exact congrArg HistoryView.finished hview
  | some d => exact congrArg HistoryView.finished (called_of_direction? h).2.1

/-- No call changes how a session draws. -/
theorem settings_called (s : Session) (c : SessionCall) : (s.called c).settings = s.settings := by
  cases c with
  | feed => exact s.settings_feed
  | hide => exact s.settings_hide
  | reveal => exact s.settings_reveal
  | printAbove t => exact s.settings_printAbove t
  | push more => rfl

theorem settings_driven (s : Session) (calls : Nat → SessionCall) (n : Nat) :
    (s.driven calls n).settings = s.settings := by
  induction n with
  | zero => rfl
  | succ n ih => exact ((s.driven calls n).settings_called (calls n)).trans ih

theorem isTerminal_driven {s : Session} (h : s.isTerminal = true) (calls : Nat → SessionCall)
    (n : Nat) : (s.driven calls n).isTerminal = true :=
  (congrArg SessionSettings.isTerminal (s.settings_driven calls n)).trans h

/-- **What a call does to the line** is a matter of the operations on lines. -/
theorem exists_edited_called (s : Session) (c : SessionCall) :
    ∃ ops, (s.called c).line = s.line.edited ops := by
  cases hkey : s.key? c with
  | none => exact ⟨[], (called_of_key?_eq_none hkey).1⟩
  | some k =>
    cases c with
    | feed =>
      rw [called, feed_of_key? hkey]
      exact s.afterReading.exists_edited_press k
    | _ => exact absurd hkey (by simp [key?])

end Session

end Typeline
