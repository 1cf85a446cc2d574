import Typeline.Proofs.Key.Pauses
import Typeline.Proofs.Session.Feed
import Typeline.Proofs.Terminal.Written
import Typeline.Session.Reader

/-!
# Sessions fed until the edit is over

Feeding a session reads from the keyboard and then acts on what has been read. The two are
independent: what a key does to a session is the same whatever its keyboard holds. So sessions that
read the same keys go the same way, and an edit on input that ends is over after a number of keys
that can be told from the start.

## Main definitions

* `Session.withKeyboard` : a session with another keyboard.
* `Session.respond` : what a session does when it has read.
* `Session.left` : a number of keys that a session can still read.
* `Session.initial` : a session at its start, where the width of a terminal is known.
* `Editor.driveLine` : reading a line with a session that is fed until its edit is over.

## Main results

* `Session.feed_withKeyboard` : reading first, and then responding.
* `Session.run_eq_run` : an edit that is over has one outcome, however often it is fed.
* `Session.run_ne_waiting` : an edit on input that ends is over at some time.
* `Session.start_of_fixedColumns` : a session starts the same way whatever has been typed.
-/

namespace Typeline

/-- How reading a line ends by what a key has led to. -/
def FeedResult.result : FeedResult → ReadResult
  | .more => .waiting
  | .done event => .event event
  | .error e => .error e

theorem FeedResult.result_ne_waiting {r : FeedResult} (h : r ≠ .more) : r.result ≠ .waiting := by
  cases r with
  | more => exact absurd rfl h
  | _ => simp [FeedResult.result]

namespace Session

/-- A session with another keyboard, and with a decoder that has read from it. -/
def withKeyboard (s : Session) (d : KeyDecoder) (input : Input) : Session :=
  { s with decoder := d, input }

section Keyboard

variable (s : Session) (d : KeyDecoder) (input : Input)

@[simp] theorem withKeyboard_editor : (s.withKeyboard d input).editor = s.editor := rfl

@[simp] theorem withKeyboard_line : (s.withKeyboard d input).line = s.line := rfl

@[simp] theorem withKeyboard_withKeyboard (d' : KeyDecoder) (input' : Input) :
    (s.withKeyboard d input).withKeyboard d' input' = s.withKeyboard d' input' := rfl

@[simp] theorem closeSlot_withKeyboard :
    (s.withKeyboard d input).closeSlot = s.closeSlot.withKeyboard d input := rfl

@[simp] theorem refreshWith_withKeyboard (mode : RefreshMode) (hints : Bool) :
    (s.withKeyboard d input).refreshWith mode hints =
      (s.refreshWith mode hints).withKeyboard d input := rfl

@[simp] theorem ite_withKeyboard (p : Prop) [Decidable p] (t : Session) :
    (if p then s.withKeyboard d input else t.withKeyboard d input) =
      (if p then s else t).withKeyboard d input :=
  (apply_ite (fun u : Session => u.withKeyboard d input) p s t).symm

/-! ### Acting on a key -/

@[simp] theorem change_withKeyboard (line : Option Line) :
    (s.withKeyboard d input).change line = (s.change line).withKeyboard d input := by
  cases line <;> rfl

private theorem insertChar_withKeyboard (c : Char) :
    (s.withKeyboard d input).insertChar c = (s.insertChar c).withKeyboard d input := by
  rw [insertChar, insertChar, withKeyboard_line]
  cases s.line.insert [c] with
  | none => rfl
  | some line =>
    let typed : Session := { s with line }
    exact ite_withKeyboard (typed.write _) d input (typed.isPlainInsertion s.line.atEnd c = true)
      (typed.refresh .all)

private theorem browse_withKeyboard (direction : BrowseDirection) :
    (s.withKeyboard d input).browse direction = (s.browse direction).withKeyboard d input :=
  change_withKeyboard { s.withHistory _ with historyIndex := _ } d input _

private theorem enter_withKeyboard :
    (s.withKeyboard d input).enter = (s.enter.1, s.enter.2.withKeyboard d input) := by
  simp only [enter, closeSlot_withKeyboard, refreshWith_withKeyboard, change_withKeyboard,
    ite_withKeyboard, withKeyboard_editor, withKeyboard_line]

/-- What a key does is the same on any keyboard. -/
theorem act_withKeyboard (k : Key) :
    (s.withKeyboard d input).act k = ((s.act k).1, (s.act k).2.withKeyboard d input) := by
  have hchange (line : Option Line) :
      ((none : Option EditEvent), (s.withKeyboard d input).change line) =
        (none, (s.change line).withKeyboard d input) := by
    rw [change_withKeyboard]
  cases k with
  | enter =>
    rw [act, enter_withKeyboard]
    rfl
  | deleteOrEnd =>
    rw [act, act, withKeyboard_line]
    split
    · rfl
    · exact hchange _
  | char c => exact congrArg (none, ·) (s.insertChar_withKeyboard d input c)
  | up => exact congrArg (none, ·) (s.browse_withKeyboard d input .older)
  | down => exact congrArg (none, ·) (s.browse_withKeyboard d input .newer)
  | interrupt | clearScreen | tab | escape | ignored => rfl
  | _ => exact hchange _

private theorem continueCycle_withKeyboard (k : Key) : (s.withKeyboard d input).continueCycle k =
    ((s.continueCycle k).1, (s.continueCycle k).2.withKeyboard d input) := by
  by_cases htab : k = .tab
  · subst htab
    exact congrArg (fun t : Session => ((none : Option Key), t.refresh .all))
      (ite_withKeyboard ({ s with cycle := _ } : Session).ring d input _ { s with cycle := _ })
  · by_cases hescape : k = .escape
    · subst hescape
      rfl
    · rw [continueCycle_of_ne htab hescape, continueCycle_of_ne htab hescape]
      rfl

private theorem complete_withKeyboard (k : Key) : (s.withKeyboard d input).complete k =
    ((s.complete k).1, (s.complete k).2.withKeyboard d input) := by
  by_cases hactive : s.cycle.isActive = true
  · rw [complete_of_active hactive, complete_of_active (s := s.withKeyboard d input) hactive,
      continueCycle_withKeyboard]
  · unfold complete
    rw [if_neg hactive, if_neg (show ¬(s.withKeyboard d input).cycle.isActive = true from hactive),
      withKeyboard_editor]
    split
    · next completer _ =>
      by_cases hempty : (completer s.line.text).isEmpty = true
      · exact (if_pos hempty).trans (by rw [if_pos hempty]; rfl)
      · refine (if_neg hempty).trans ?_
        rw [if_neg hempty]
        exact continueCycle_withKeyboard { s with candidates := _ } d input .tab
    · rfl

/-- What a key does, by completion or as it is, is the same on any keyboard. -/
theorem press_withKeyboard (k : Key) : (s.withKeyboard d input).press k =
    ((s.press k).1, (s.press k).2.withKeyboard d input) := by
  rw [press, press, complete_withKeyboard]
  rcases s.complete k with ⟨_ | k', t⟩
  · rfl
  · simp only [act_withKeyboard]
    rcases t.act k' with ⟨_ | event, u⟩ <;> rfl

/-! ### Reading and responding -/

/-- What a session does when it has read. -/
def respond (s : Session) : KeyReading → FeedResult × Session
  | .key k => s.press k
  | .silent .notReady => (.more, s)
  | .silent .ended => (.done .ended, s.closeSlot)
  | .silent .failed => (.error (.io .device), s)

theorem respond_withKeyboard (r : KeyReading) : (s.withKeyboard d input).respond r =
    ((s.respond r).1, (s.respond r).2.withKeyboard d input) := by
  cases r with
  | key k => exact s.press_withKeyboard d input k
  | silent r => cases r <;> rfl

variable {s}

/-- A session on a terminal reads a key and then responds to it. -/
theorem feed_withKeyboard (h : s.isTerminal = true) : (s.withKeyboard d input).feed =
    (s.withKeyboard (d.read input).2.1 (d.read input).2.2).respond (d.read input).1 := by
  rw [feed_of_isTerminal (s := s.withKeyboard d input) h]
  rfl

end Keyboard

theorem feed_eq_respond {s : Session} (h : s.isTerminal = true) :
    s.feed = ((s.respond (s.decoder.read s.input).1).1,
      (s.respond (s.decoder.read s.input).1).2.withKeyboard (s.decoder.read s.input).2.1
        (s.decoder.read s.input).2.2) := by
  rw [← respond_withKeyboard]
  exact feed_withKeyboard s.decoder s.input h

/-- What a session reads of a plain line. -/
def plainReading (s : Session) : FeedResult × List UInt8 × List Reading :=
  readPlain s.input.drained s.plainLine s.input.queue

theorem feed_plain {s : Session} (h : ¬s.isTerminal = true) :
    s.feed = (s.plainReading.1,
      { s with
        plainLine := s.plainReading.2.1
        input := { s.input with queue := s.plainReading.2.2 } }) := by
  rw [feed, if_pos (by simpa using h)]
  rfl

/-! ### The keyboard -/

theorem snd_readSilence (s : Silence) (line : List UInt8) (queue : List Reading) :
    (readPlain.readSilence s line queue).2.2 = queue := by
  cases s with
  | ended =>
    rw [readPlain.readSilence]
    split <;> rfl
  | _ => rfl

theorem readPlain_suffix (drained : Silence) (line : List UInt8) (r : Reading)
    (queue : List Reading) : (readPlain drained line (r :: queue)).2.2 <:+ queue := by
  induction queue generalizing line r with
  | nil =>
    cases r with
    | silent s => rw [readPlain, snd_readSilence]
    | byte b =>
      rw [readPlain]
      split
      · exact List.suffix_rfl
      · rw [readPlain, snd_readSilence]
  | cons r' queue ih =>
    cases r with
    | silent s => rw [readPlain, snd_readSilence]
    | byte b =>
      rw [readPlain]
      split
      · exact List.suffix_rfl
      · exact (ih _ r').trans (List.suffix_cons r' queue)

/-- A session leaves its input as it is, but for what it takes from the queue. -/
theorem input_feed (s : Session) :
    ∃ queue, queue <:+ s.input.queue ∧ s.feed.2.input = { s.input with queue } := by
  by_cases h : s.isTerminal = true
  · rw [feed_eq_respond h]
    exact ⟨_, s.decoder.read_suffix s.input, rfl⟩
  · rw [feed_plain h]
    refine ⟨_, ?_, rfl⟩
    rw [plainReading]
    cases s.input.queue with
    | nil =>
      rw [readPlain, snd_readSilence]
    | cons r queue => exact (readPlain_suffix _ _ _ _).trans (List.suffix_cons r queue)

/-- A number of keys that a session can still read: a byte gives two at most, and so does a
character under way. -/
def left (s : Session) : Nat := 2 * s.input.queue.length + s.decoder.kept

/-- As long as the edit goes on, less is left after each key. -/
theorem left_feed {s : Session} (hdrained : s.input.drained = .ended) (h : s.feed.1 = .more) :
    s.feed.2.left < s.left := by
  by_cases hterminal : s.isTerminal = true
  · rw [feed_eq_respond hterminal] at h ⊢
    refine KeyDecoder.kept_read hdrained fun hended => ?_
    rw [hended] at h
    exact absurd h (by simp [respond])
  · rw [feed_plain hterminal] at h ⊢
    simp only [left, plainReading, hdrained] at h ⊢
    cases hqueue : s.input.queue with
    | nil =>
      rw [hqueue, readPlain, readPlain.readSilence] at h
      split at h <;> exact absurd h (by simp)
    | cons r queue =>
      have hlength := (readPlain_suffix .ended s.plainLine r queue).length_le
      rw [List.length_cons]
      omega

/-! ### Runs -/

variable {s t : Session} {m n : Nat}

theorem run_of_more (h : s.feed.1 = .more) (n : Nat) : s.run (n + 1) = s.feed.2.run n := by
  rw [run]
  split <;> simp_all

theorem run_of_ne_more (h : s.feed.1 ≠ .more) (n : Nat) :
    s.run (n + 1) = (s.feed.1.result, s.feed.2) := by
  rw [run]
  split <;> simp_all [FeedResult.result]

theorem run_congr (h : s.feed = t.feed) (n : Nat) : s.run (n + 1) = t.run (n + 1) := by
  rw [run, run, h]

/-- Once the edit is over, feeding more often makes no difference. -/
theorem run_of_le (h : (s.run m).1 ≠ .waiting) (hmn : m ≤ n) : s.run n = s.run m := by
  induction m generalizing s n with
  | zero => exact absurd rfl h
  | succ m ih =>
    obtain ⟨n, rfl⟩ : ∃ k, n = k + 1 := ⟨n - 1, by omega⟩
    by_cases hmore : s.feed.1 = .more
    · rw [run_of_more hmore] at h ⊢
      rw [run_of_more hmore]
      exact ih h (by omega)
    · rw [run_of_ne_more hmore, run_of_ne_more hmore]

/-- **An edit that is over has one outcome**, however often it is fed. -/
theorem run_eq_run (hm : (s.run m).1 ≠ .waiting) (hn : (s.run n).1 ≠ .waiting) :
    s.run m = s.run n := by
  rcases Nat.le_total m n with hle | hle
  · exact (run_of_le hm hle).symm
  · exact run_of_le hn hle

/-- **An edit on input that ends is over** after as many keys as are left to read. -/
theorem run_ne_waiting (hdrained : s.input.drained = .ended) (hn : s.left < n) :
    (s.run n).1 ≠ .waiting := by
  induction n generalizing s with
  | zero => exact absurd hn (Nat.not_lt_zero _)
  | succ n ih =>
    by_cases hmore : s.feed.1 = .more
    · rw [run_of_more hmore]
      have hleft := left_feed hdrained hmore
      obtain ⟨queue, -, hinput⟩ := s.input_feed
      exact ih (by rw [hinput]; exact hdrained) (by omega)
    · rw [run_of_ne_more hmore]
      exact FeedResult.result_ne_waiting hmore

/-! ### Reading a line -/

/-- What there is when a session has been finished. -/
def outcome (s : Session) (r : ReadResult) : ReadOutcome :=
  ⟨r, s.finish.editor, s.finish.input, s.finish.output, s.finish.hintsAsked,
    s.finish.hintsReleased, s.finish.inRange⟩

theorem finish_withKeyboard (s : Session) (d : KeyDecoder) (input : Input) :
    (s.withKeyboard d input).finish = s.finish.withKeyboard d input := by
  by_cases hfinished : s.finished = true
  · rw [finish, finish, if_pos hfinished]
    exact if_pos hfinished
  · rw [finish, finish, if_neg hfinished]
    let closed : Session := { s with finished := true }.closeSlot
    exact (if_neg hfinished).trans
      (ite_withKeyboard (closed.write _) d input (closed.isTerminal = true) closed)

theorem input_finish (s : Session) : s.finish.input = s.input := by
  have hfinish := congrArg Session.input (s.finish_withKeyboard s.decoder s.input)
  exact hfinish

/-- A session that has kept nothing so far is over within its bound on the number of keys. -/
theorem run_keyBound_ne_waiting (hdrained : s.input.drained = .ended) (hkept : s.decoder.kept = 0) :
    (s.run s.keyBound).1 ≠ .waiting := by
  refine run_ne_waiting hdrained ?_
  rw [left, keyBound, hkept]
  omega

variable {editor : Editor} {mode : RawMode} {input : Input} {output : Output} {prompt : Text}

/-- A session at its start, where the width of a terminal is known. -/
def initial (editor : Editor) (input : Input) (output : Output) (prompt : Text) (columns : Nat) :
    Session :=
  if editor.terminal.assumeTerminal || input.isTerminal then
    { unopened { editor with history := editor.history.beginLiveSlot } input
        (output.write prompt) prompt true with columns }
  else unopened editor input output prompt false

private theorem initial_withKeyboard (queue : List Reading) (columns : Nat) :
    initial editor { input with queue } output prompt columns =
      (initial editor input output prompt columns).withKeyboard .idle { input with queue } := by
  rw [initial, initial]
  split <;> rfl

theorem start_eq_initial (hcapacity : editor.config.capacity ≠ 0) {mode' : RawMode}
    (hmode : (if (editor.terminal.assumeTerminal || input.isTerminal) &&
      !editor.terminal.assumeTerminal then mode.enable else .ok mode) = .ok mode')
    {columns : Nat} (hfixed : (editor.terminal.assumeTerminal || input.isTerminal) = true →
      editor.terminal.fixedColumns = some columns) :
    start editor mode input output prompt = .ok (initial editor input output prompt columns) := by
  rw [start, if_neg hcapacity, initial]
  simp only [hmode]
  split
  · next hterminal =>
    have hfound : findColumns editor.terminal input output = (columns, input, output) :=
      findColumns_of_known (by rw [hfixed hterminal]; rfl)
    rw [hfound]
  · rfl

/-- On a terminal whose width is fixed, what has been typed makes no difference to the start of a
session, and none of it is read there. -/
theorem start_of_fixedColumns
    (hfixed : (editor.terminal.assumeTerminal || input.isTerminal) = true →
      editor.terminal.fixedColumns.isSome = true) :
    (∃ e, ∀ queue, start editor mode { input with queue } output prompt = .error e) ∨
      ∃ t : Session, ∀ queue, start editor mode { input with queue } output prompt =
        .ok (t.withKeyboard .idle { input with queue }) := by
  by_cases hcapacity : editor.config.capacity = 0
  · refine Or.inl ⟨.bufferCapacity, fun queue => ?_⟩
    rw [start, if_pos hcapacity]
  · cases hmode : if (editor.terminal.assumeTerminal || input.isTerminal) &&
        !editor.terminal.assumeTerminal then mode.enable else .ok mode with
    | error reason =>
      refine Or.inl ⟨.rawMode reason, fun queue => ?_⟩
      rw [start, if_neg hcapacity]
      simp only [hmode]
    | ok mode' =>
      have hcolumns : (editor.terminal.assumeTerminal || input.isTerminal) = true →
          editor.terminal.fixedColumns = some (editor.terminal.fixedColumns.getD 0) := by
        intro hterminal
        obtain ⟨columns, hcolumns⟩ := Option.isSome_iff_exists.mp (hfixed hterminal)
        rw [hcolumns, Option.getD_some]
      refine Or.inr ⟨initial editor input output prompt (editor.terminal.fixedColumns.getD 0),
        fun queue => ?_⟩
      rw [← initial_withKeyboard]
      exact @start_eq_initial editor mode { input with queue } output prompt hcapacity mode' hmode _
        hcolumns

end Session

namespace Editor

variable {editor : Editor} {mode : RawMode} {input : Input} {output : Output} {prompt : Text}

/-- Reading a line with a session that is fed until its edit is over, but not more than `feeds`
times, and is then finished. -/
def driveLine (editor : Editor) (mode : RawMode) (input : Input) (output : Output)
    (prompt : Text) (feeds : Nat) : ReadOutcome :=
  match Session.start editor mode input output prompt with
  | .error e => ⟨.error e, editor, input, output, 0, 0, true⟩
  | .ok s => (s.run feeds).2.outcome (s.run feeds).1

theorem driveLine_of_start_eq_error {e : EditError}
    (hstart : Session.start editor mode input output prompt = .error e) (feeds : Nat) :
    editor.driveLine mode input output prompt feeds =
      ⟨.error e, editor, input, output, 0, 0, true⟩ := by
  rw [driveLine, hstart]

theorem driveLine_of_start_eq_ok {s : Session}
    (hstart : Session.start editor mode input output prompt = .ok s) (feeds : Nat) :
    editor.driveLine mode input output prompt feeds = (s.run feeds).2.outcome (s.run feeds).1 := by
  rw [driveLine, hstart]

theorem readLine_of_start_eq_error {e : EditError}
    (hedited : ¬((input.isTerminal || editor.terminal.assumeTerminal) && editor.terminal.isPlain) =
      true) (hstart : Session.start editor mode input output prompt = .error e) :
    editor.readLine mode input output prompt = ⟨.error e, editor, input, output, 0, 0, true⟩ := by
  rw [readLine, if_neg hedited, hstart]

theorem readLine_of_start_eq_ok {s : Session}
    (hedited : ¬((input.isTerminal || editor.terminal.assumeTerminal) && editor.terminal.isPlain) =
      true) (hstart : Session.start editor mode input output prompt = .ok s) :
    editor.readLine mode input output prompt =
      (s.run s.keyBound).2.outcome (s.run s.keyBound).1 := by
  rw [readLine, if_neg hedited, hstart]
  rfl

end Editor

end Typeline
