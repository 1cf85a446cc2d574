import Typeline.Proofs.Key.Characters
import Typeline.Proofs.History.Slots
import Typeline.Proofs.Session.Range
import Typeline.Proofs.Session.Runs

/-!
# Ordinary text

There are three ways in which a line is read. On a terminal it is edited: each key is decoded and
acted on. Input that is no terminal is read as plain lines, and on a terminal that cannot be used
for editing, a line is read without it; both of these collect bytes up to a line feed. A text
without control characters that fits into a line is read as itself by all three, however the line
is shown.

## Main definitions

* `Input.typed` : an input on which a text is typed and entered.
* `Session.Typing` : a session in which nothing has been done so far but typing a text.
* `ReadOutcome.Yields` : a line has been read, and what is left then.

## Main results

* `Session.Typing.exists_feed` : one more character.
* `Session.Typing.exists_run` : the rest of a text, and the key that enters it.
* `Editor.readLine_typed` : the three ways to read a line.
-/

namespace Typeline

/-- An input on which a text is typed and entered, and the rest is left for later. -/
def Input.typed (input : Input) (t : Text) (rest : List Reading) : Input :=
  { input with queue := (Utf8.encode t).map .byte ++ .byte 0x0A :: rest }

/-! ### Lines that are only read -/

/-- A plain line is read up to its line feed. -/
theorem Session.readPlain_of_notMem {bytes : List UInt8} (h : 0x0A ∉ bytes) (drained : Silence)
    (rest : List Reading) (line : List UInt8) :
    readPlain drained line (bytes.map .byte ++ .byte 0x0A :: rest) =
      (.done (.line (Utf8.lossy (line ++ bytes))), [], rest) := by
  induction bytes generalizing line with
  | nil =>
    rw [List.append_nil]
    rfl
  | cons b bytes ih =>
    obtain ⟨hb, hbytes⟩ := not_or.mp (mt List.mem_cons.mpr h)
    rw [List.map_cons, List.cons_append, readPlain, if_neg (Ne.symm hb), ih hbytes,
      List.append_assoc, List.singleton_append]

/-- So is a line that is read without editing, over all pauses in it. What does not fit is left
out. -/
theorem readUnedited_of_paused {capacity : Nat} {queue : List Reading} (hpaused : Paused queue)
    (h : 0x0A ∉ bytesIn queue) (drained : Silence) (rest : List Reading) {line : List UInt8}
    (hline : line.length ≤ capacity) :
    readUnedited capacity drained line (queue ++ .byte 0x0A :: rest) =
      (.event (.line (Utf8.lossy (withoutReturns ((line ++ bytesIn queue).take capacity)))),
        rest) := by
  induction queue generalizing line with
  | nil =>
    rw [bytesIn, List.filterMap_nil, List.append_nil, List.take_of_length_le hline]
    rfl
  | cons r queue ih =>
    have hlater : Paused queue := hpaused.of_suffix (List.suffix_cons r queue)
    cases r with
    | silent s =>
      obtain rfl := hpaused s List.mem_cons_self
      exact ih hlater h hline
    | byte b =>
      obtain ⟨hb, hbytes⟩ := not_or.mp (mt List.mem_cons.mpr h)
      rw [List.cons_append, readUnedited, if_neg (Ne.symm hb)]
      simp only
      split
      · next hroom =>
        rw [ih hlater hbytes (by rw [List.length_append, List.length_singleton]; omega),
          List.append_assoc]
        rfl
      · next hfull =>
        have hlength : line.length = capacity := by omega
        rw [ih hlater hbytes hline, List.take_left' hlength, List.take_left' hlength]

/-- A line without pauses that fits is read as a whole. -/
theorem readUnedited_of_notMem {bytes : List UInt8} (h : 0x0A ∉ bytes) (drained : Silence)
    (rest : List Reading) {capacity : Nat} (hfits : bytes.length ≤ capacity) :
    readUnedited capacity drained [] (bytes.map .byte ++ .byte 0x0A :: rest) =
      (.event (.line (Utf8.lossy (withoutReturns bytes))), rest) := by
  have hpaused : Paused (bytes.map .byte) := fun s hs => by simp at hs
  rw [readUnedited_of_paused hpaused (by rwa [bytesIn_map_byte]) drained rest (Nat.zero_le _),
    bytesIn_map_byte, List.nil_append, List.take_of_length_le hfits]

private theorem withoutReturns_of_notMem {bytes : List UInt8} (h : 0x0D ∉ bytes) :
    withoutReturns bytes = bytes := by
  have hkeep : bytes.reverse.dropWhile (· == 0x0D) = bytes.reverse := by
    cases hreverse : bytes.reverse with
    | nil => rfl
    | cons b rest =>
      have hmem : b ∈ bytes := List.mem_reverse.mp (hreverse ▸ List.mem_cons_self)
      refine List.dropWhile_cons_of_neg ?_
      rw [beq_iff_eq]
      exact fun heq => h (heq ▸ hmem)
  rw [withoutReturns, hkeep, List.reverse_reverse]

/-- A control character of ASCII is not among the bytes of a text without such characters. -/
theorem Utf8.notMem_encode_of_isAsciiControl {c : Char} (hc : isAsciiControl c = true) {t : Text}
    (h : ∀ d ∈ t, isAsciiControl d = false) : UInt8.ofNat c.toNat ∉ encode t := by
  refine notMem_encode ?_ fun hmem => absurd ((h c hmem).symm.trans hc) Bool.false_ne_true
  simp only [isAsciiControl, Bool.or_eq_true, decide_eq_true_eq, beq_iff_eq] at hc
  omega

namespace Session

variable {s : Session} {t : Text} {c : Char}

/-- Drawing a line with the cursor at its end keeps the columns in range. -/
theorem inRange_refreshWith_of_atEnd (hend : s.shownLine.after = [])
    (hrange : s.HasRange (byteLength s.shownLine.text)) (mode : RefreshMode) (hints : Bool) :
    (s.refreshWith mode hints).inRange = s.inRange := by
  refine inRange_refreshWith ⟨?_, hrange⟩ mode hints
  rw [Line.OnBoundary, hend]
  exact isBoundary_nil_right _

/-! ### Typing -/

/-- A session on a terminal in which nothing has been done so far but typing a text. -/
structure Typing (s : Session) (t : Text) : Prop where
  isTerminal_eq : s.isTerminal = true
  decoder_eq : s.decoder = .idle
  cycle_eq : s.cycle = .idle
  line_eq : s.line = ⟨t.reverse, [], s.editor.config.capacity⟩

/-- Without a cycle through candidates a key that does not start one is acted on as it is. -/
theorem press_of_idle (hidle : s.cycle = .idle) {k : Key} (htab : k ≠ .tab) {e : Option EditEvent}
    {u : Session} (hact : s.act k = (e, u)) :
    s.press k = (e.elim .more .done, u) := by
  rw [press, complete_of_idle_of_ne hidle htab]
  simp only
  rw [hact]
  cases e <;> rfl

/-- Typing a character changes the line, and what drawing it changes. -/
theorem exists_insertChar {line : Line} (hinsert : s.line.insert [c] = some line) :
    ∃ output drawState hintsAsked hintsReleased inRange, s.insertChar c =
      { s with line, output, drawState, hintsAsked, hintsReleased, inRange } := by
  rw [insertChar, hinsert]
  dsimp only
  split
  · exact ⟨_, _, _, _, _, rfl⟩
  · exact ⟨_, _, _, _, _, rfl⟩

/-- If it is typed at the end, the columns stay in range. -/
theorem inRange_insertChar {line : Line} (hinsert : s.line.insert [c] = some line)
    (hidle : s.cycle = .idle) (hend : line.after = [])
    (hrange : s.HasRange (byteLength line.text)) : (s.insertChar c).inRange = s.inRange := by
  have hshown : ({ s with line } : Session).shownLine = line := shownLine_of_idle hidle
  rw [insertChar, hinsert]
  dsimp only
  split
  · rfl
  · refine inRange_refreshWith_of_atEnd (by rw [hshown]; exact hend) ?_ .all true
    rw [hshown]
    exact hrange

/-- Entering a line with the cursor at its end takes a hint away and closes the live slot. -/
theorem enter_of_atEnd (hend : s.line.after = []) : s.enter =
    (.line s.line.text,
      if s.editor.hinter.isSome then s.closeSlot.refreshWith .all false else s.closeSlot) := by
  have hmove : s.closeSlot.line.moveEnd = none := by
    rw [Line.moveEnd]
    exact if_pos (by rw [show s.closeSlot.line.after = [] from hend]; rfl)
  have hhinter : s.closeSlot.editor.hinter = s.editor.hinter := rfl
  rw [enter, hmove]
  simp only [change, ite_self, hhinter]
  split <;> rfl

namespace Typing

private theorem insert_eq (h : s.Typing t)
    (hfits : byteLength (t ++ [c]) ≤ s.editor.config.capacity) :
    s.line.insert [c] = some ⟨(t ++ [c]).reverse, [], s.editor.config.capacity⟩ := by
  have hroom : ¬s.editor.config.capacity < byteLength t + c.utf8Size := by
    rw [byteLength_append, byteLength_cons, byteLength_nil] at hfits
    omega
  rw [h.line_eq, Line.insert, if_neg (by simpa [Line.length] using hroom)]
  simp [Line.settled, Line.settle]

/-- A key that is typed is read, and the queue behind it is left. -/
theorem feed_of_read (h : s.Typing t) {k : Key} {queue : List Reading}
    (hread : KeyDecoder.readQueue s.input.drained s.input.drainedSoon .idle s.input.queue =
      (.key k, .idle, queue)) (htab : k ≠ .tab) {e : Option EditEvent} {u : Session}
    (hact : s.act k = (e, u)) :
    s.feed = (e.elim .more .done, u.withKeyboard .idle { s.input with queue }) := by
  rw [feed_eq_respond h.isTerminal_eq, h.decoder_eq, KeyDecoder.read_idle, hread]
  simp only [respond, press_of_idle h.cycle_eq htab hact]

/-- **One more character** is put at the end of the line. -/
theorem exists_feed (h : s.Typing t) (hc : isAsciiControl c = false)
    (hfits : byteLength (t ++ [c]) ≤ s.editor.config.capacity) {queue : List Reading}
    (hqueue : s.input.queue = (Utf8.encodeChar c).map .byte ++ queue) :
    ∃ u, s.feed = (.more, u) ∧ u.Typing (t ++ [c]) ∧ u.input = { s.input with queue } ∧
      u.editor = s.editor ∧ u.settings = s.settings ∧ u.finished = s.finished ∧
      (s.HasRange (byteLength (t ++ [c])) → u.inRange = s.inRange) := by
  have hinsert := h.insert_eq hfits
  have hread : KeyDecoder.readQueue s.input.drained s.input.drainedSoon .idle s.input.queue =
      (.key (.char c), .idle, queue) := by
    rw [hqueue, KeyDecoder.readQueue_encodeChar hc]
  have hact : s.act (.char c) = (none, s.insertChar c) := rfl
  refine ⟨_, h.feed_of_read hread (by simp) hact, ?_⟩
  have hrange (hcolumns : s.HasRange (byteLength (t ++ [c]))) :
      (s.insertChar c).inRange = s.inRange :=
    inRange_insertChar hinsert h.cycle_eq rfl (by simpa [Line.text] using hcolumns)
  obtain ⟨output, drawState, hintsAsked, hintsReleased, inRange, hsame⟩ := exists_insertChar hinsert
  rw [hsame] at hrange ⊢
  exact ⟨⟨h.isTerminal_eq, rfl, h.cycle_eq, rfl⟩, rfl, rfl, rfl, rfl, hrange⟩

/-- **The key that enters the line** ends the edit with what has been typed. -/
theorem exists_enter (h : s.Typing t) {rest : List Reading}
    (hqueue : s.input.queue = .byte 0x0A :: rest) :
    ∃ u, s.feed = (.done (.line t), u) ∧ u.input = { s.input with queue := rest } ∧
      u.editor = s.closeSlot.editor ∧ u.finished = s.finished ∧
      (s.HasRange (byteLength t) → u.inRange = s.inRange) := by
  have hend : s.line.after = [] := by
    rw [h.line_eq]
  have htext : s.line.text = t := by
    rw [h.line_eq, Line.text, List.reverse_reverse, List.append_nil]
  have hread : KeyDecoder.readQueue s.input.drained s.input.drainedSoon .idle s.input.queue =
      (.key .enter, .idle, rest) := by
    rw [hqueue]
    rfl
  have hact : s.act .enter = (some (.line t), s.enter.2) := by
    rw [act, enter_of_atEnd hend, htext]
  refine ⟨_, h.feed_of_read hread (by simp) hact, rfl, ?_⟩
  rw [enter_of_atEnd hend]
  have hshown : s.closeSlot.shownLine = s.line := shownLine_of_idle h.cycle_eq
  have hshownEnd : s.closeSlot.shownLine.after = [] := by
    rw [hshown]
    exact hend
  by_cases hhinter : s.editor.hinter.isSome = true
  · rw [if_pos hhinter]
    refine ⟨rfl, rfl, fun hrange => ?_⟩
    refine inRange_refreshWith_of_atEnd (s := s.closeSlot) hshownEnd ?_ .all false
    rw [hshown, htext]
    exact hrange
  · rw [if_neg hhinter]
    exact ⟨rfl, rfl, fun _ => rfl⟩

/-- **The rest of a text, and the key that enters it.** -/
theorem exists_run (h : s.Typing t) {t' : Text} (hchars : ∀ c ∈ t', isAsciiControl c = false)
    (hfits : byteLength (t ++ t') ≤ s.editor.config.capacity) {rest : List Reading}
    (hqueue : s.input.queue = (Utf8.encode t').map .byte ++ .byte 0x0A :: rest) :
    ∃ u, s.run (t'.length + 1) = (.event (.line (t ++ t')), u) ∧
      u.input = { s.input with queue := rest } ∧ u.editor = s.closeSlot.editor ∧
      u.finished = s.finished ∧ (s.HasRange (byteLength (t ++ t')) → u.inRange = s.inRange) := by
  induction t' generalizing s t with
  | nil =>
    obtain ⟨u, hfeed, hrest⟩ := h.exists_enter hqueue
    refine ⟨u, ?_, ?_⟩
    · rw [run_of_ne_more (by rw [hfeed]; simp), hfeed, List.append_nil]
      rfl
    · rw [List.append_nil]
      exact hrest
  | cons c t' ih =>
    rw [← List.singleton_append, ← List.append_assoc] at hfits ⊢
    rw [Utf8.encode, List.flatMap_cons, List.map_append, List.append_assoc] at hqueue
    have hshort : byteLength (t ++ [c]) ≤ byteLength (t ++ [c] ++ t') := by
      rw [byteLength_append (t ++ [c])]
      omega
    obtain ⟨u, hfeed, htyping, hinput, heditor, hsettings, hfinished, hrange⟩ :=
      h.exists_feed (hchars c List.mem_cons_self) (Nat.le_trans hshort hfits) hqueue
    obtain ⟨u', hrun, hinput', heditor', hfinished', hrange'⟩ :=
      ih htyping (fun d hd => hchars d (List.mem_cons_of_mem c hd)) (by rw [heditor]; exact hfits)
        (by rw [hinput]; rfl)
    refine ⟨u', ?_, ?_, ?_, hfinished'.trans hfinished, fun hcolumns => ?_⟩
    · rw [List.length_append, List.length_singleton, Nat.add_comm 1,
        run_of_more (by rw [hfeed]), hfeed]
      exact hrun
    · rw [hinput', hinput]
    · exact heditor'.trans
        (congrArg (fun e : Editor => { e with history := e.history.endLiveSlot }) heditor)
    · exact (hrange' (hcolumns.of_settings hsettings)).trans (hrange (hcolumns.mono hshort))

end Typing

/-! ### The end -/

private theorem editor_finish (hfinished : s.finished = false) :
    s.finish.editor = s.closeSlot.editor := by
  rw [finish, if_neg (by rw [hfinished]; exact Bool.false_ne_true)]
  dsimp only
  split <;> rfl

private theorem inRange_finish (s : Session) : s.finish.inRange = s.inRange := by
  rw [finish]
  split
  · rfl
  · dsimp only
    split <;> rfl

private theorem closeSlot_closeSlot (s : Session) : s.closeSlot.closeSlot = s.closeSlot :=
  congrArg s.withHistory s.editor.history.endLiveSlot_endLiveSlot

end Session

/-- A line has been read, and an editor and the rest of the input are left. -/
structure ReadOutcome.Yields (o : ReadOutcome) (t : Text) (editor : Editor) (input : Input) :
    Prop where
  result_eq : o.result = .event (.line t)
  editor_eq : o.editor = editor
  input_eq : o.input = input

theorem Session.yields_outcome {s u : Session} {t : Text} {n : Nat} {input : Input}
    (hrun : s.run n = (.event (.line t), u)) (hn : n ≤ s.keyBound) (hfinished : u.finished = false)
    (heditor : u.closeSlot.editor = s.closeSlot.editor) (hinput : u.input = input) :
    ((s.run s.keyBound).2.outcome (s.run s.keyBound).1).Yields t s.closeSlot.editor input ∧
      ((s.run s.keyBound).2.outcome (s.run s.keyBound).1).inRange = u.inRange := by
  rw [run_of_le (by rw [hrun]; simp) hn, hrun]
  exact ⟨⟨rfl, (u.editor_finish hfinished).trans heditor, u.input_finish.trans hinput⟩,
    u.inRange_finish⟩

namespace Editor

variable {editor : Editor} {mode : RawMode} {input : Input} {output : Output} {prompt : Text}

section Ways

variable (hcapacity : editor.config.capacity ≠ 0) {t : Text}
  (hchars : ∀ c ∈ t, isAsciiControl c = false) (rest : List Reading)

include hchars

/-- A terminal that cannot be used for editing. -/
theorem yields_readLine_of_isPlain (hfits : byteLength t ≤ editor.config.capacity)
    (hon : (input.isTerminal || editor.terminal.assumeTerminal) = true)
    (hplain : editor.terminal.isPlain = true) :
    (editor.readLine mode (input.typed t rest) output prompt).Yields t editor
        { input with queue := rest } ∧
      (editor.readLine mode (input.typed t rest) output prompt).inRange = true := by
  have hread : readUnedited editor.config.capacity (input.typed t rest).drained []
      (input.typed t rest).queue = (.event (.line t), rest) := by
    rw [Input.typed, readUnedited_of_notMem
        (Utf8.notMem_encode_of_isAsciiControl (c := '\n') (by decide) hchars) _ _
        (by rw [Utf8.length_encode]; exact hfits), withoutReturns_of_notMem
        (Utf8.notMem_encode_of_isAsciiControl (c := '\r') (by decide) hchars),
      Utf8.lossy_encode]
  rw [readLine, if_pos (by rw [hplain, Bool.and_true]; exact hon)]
  simp only [hread]
  exact ⟨⟨rfl, rfl, rfl⟩, trivial⟩

include hcapacity

omit hchars in
/-- Where a line is edited, let the width be fixed and raw mode be possible. Then a session
starts. -/
theorem start_eq_initial_of_mode (input : Input) (columns : Nat)
    (hterminal : (input.isTerminal || editor.terminal.assumeTerminal) = true →
      editor.terminal.fixedColumns = some columns ∧
        (editor.terminal.assumeTerminal || mode.isTerminal) = true) :
    Session.start editor mode input output prompt =
      .ok (.initial editor input output prompt columns) := by
  rw [Bool.or_comm] at hterminal
  have hmode : ∃ mode', (if (editor.terminal.assumeTerminal || input.isTerminal) &&
      !editor.terminal.assumeTerminal then mode.enable else .ok mode) = .ok mode' := by
    split
    · next hneeds =>
      rw [Bool.and_eq_true, Bool.not_eq_true'] at hneeds
      have hraw := (hterminal hneeds.1).2
      rw [hneeds.2, Bool.false_or] at hraw
      exact ⟨_, if_pos hraw⟩
    · exact ⟨_, rfl⟩
  exact Session.start_eq_initial hcapacity hmode.choose_spec fun hon => (hterminal hon).1

/-- Input that is no terminal. -/
theorem yields_readLine_of_not_isTerminal
    (hoff : ¬(input.isTerminal || editor.terminal.assumeTerminal) = true) :
    (editor.readLine mode (input.typed t rest) output prompt).Yields t
        { editor with history := editor.history.endLiveSlot } { input with queue := rest } ∧
      (editor.readLine mode (input.typed t rest) output prompt).inRange = true := by
  have hstart : Session.start editor mode (input.typed t rest) output prompt =
      .ok (.unopened editor (input.typed t rest) output prompt false) := by
    rw [start_eq_initial_of_mode hcapacity (input.typed t rest) 0 fun hon => absurd hon hoff,
      Session.initial, Bool.or_comm]
    exact congrArg Except.ok (if_neg hoff)
  have hedited : ¬(((input.typed t rest).isTerminal || editor.terminal.assumeTerminal) &&
      editor.terminal.isPlain) = true := fun hplain => hoff (Bool.and_eq_true_iff.mp hplain).1
  let s : Session := .unopened editor (input.typed t rest) output prompt false
  have hread : s.plainReading = (.done (.line t), [], rest) := by
    refine (Session.readPlain_of_notMem
      (Utf8.notMem_encode_of_isAsciiControl (c := '\n') (by decide) hchars) _ rest []).trans ?_
    rw [List.nil_append, Utf8.lossy_encode]
  have hfeed : s.feed = (.done (.line t), { s with input := { input with queue := rest } }) := by
    rw [Session.feed_plain (s := s) Bool.false_ne_true, hread]
    rfl
  have hrun := Session.run_of_ne_more (s := s) (by rw [hfeed]; simp) 0
  rw [hfeed] at hrun
  rw [readLine_of_start_eq_ok hedited hstart]
  exact Session.yields_outcome hrun (by rw [Session.keyBound]; omega) rfl rfl rfl

/-- A terminal of fixed width. -/
theorem yields_readLine_of_isTerminal (hfits : byteLength t ≤ editor.config.capacity)
    (hon : (input.isTerminal || editor.terminal.assumeTerminal) = true)
    (hplain : ¬editor.terminal.isPlain = true) {columns : Nat}
    (hcolumns : editor.terminal.fixedColumns = some columns)
    (hmode : (editor.terminal.assumeTerminal || mode.isTerminal) = true) :
    (editor.readLine mode (input.typed t rest) output prompt).Yields t
        { editor with history := editor.history.beginLiveSlot.endLiveSlot }
        { input with queue := rest } ∧
      (promptWidth prompt + byteLength t + max columns 1 ≤ maxCount →
        (editor.readLine mode (input.typed t rest) output prompt).inRange = true) := by
  let s : Session :=
    { Session.unopened { editor with history := editor.history.beginLiveSlot } (input.typed t rest)
        (output.write prompt) prompt true with columns }
  have hstart : Session.start editor mode (input.typed t rest) output prompt = .ok s := by
    rw [start_eq_initial_of_mode hcapacity (input.typed t rest) columns fun _ => ⟨hcolumns, hmode⟩,
      Session.initial, Bool.or_comm]
    exact congrArg Except.ok (if_pos hon)
  have hedited : ¬(((input.typed t rest).isTerminal || editor.terminal.assumeTerminal) &&
      editor.terminal.isPlain) = true := fun hboth => hplain (Bool.and_eq_true_iff.mp hboth).2
  have htyping : s.Typing [] := ⟨rfl, rfl, rfl, rfl⟩
  obtain ⟨u, hrun, hinput, heditor, hfinished, hrange⟩ := htyping.exists_run hchars hfits rfl
  have hn : t.length + 1 ≤ s.keyBound := by
    have hlength : s.keyBound = 2 * (input.typed t rest).queue.length + 4 := rfl
    have hchars := length_le_byteLength t
    rw [Input.typed, List.length_append, List.length_map, Utf8.length_encode] at hlength
    omega
  have hclosed : u.closeSlot.editor = s.closeSlot.editor := by
    rw [← s.closeSlot_closeSlot]
    exact congrArg (fun e : Editor => { e with history := e.history.endLiveSlot }) heditor
  obtain ⟨hyields, hinRange⟩ := Session.yields_outcome hrun hn hfinished hclosed hinput
  rw [readLine_of_start_eq_ok hedited hstart]
  exact ⟨hyields, fun hcolumns => hinRange.trans (hrange hcolumns)⟩

end Ways

/-- **The three ways to read a line agree on ordinary text.** A text without control characters that
fits into a line is read as itself, and what follows its line feed is left, whether it is edited on
a terminal of fixed width, read as a plain line, or read without editing. The editor is then as
after an empty line. The columns stay in range if those of prompt and line do. -/
theorem readLine_typed {t : Text} (hchars : ∀ c ∈ t, isAsciiControl c = false)
    (hcapacity : 1 ≤ editor.config.capacity) (hfits : byteLength t ≤ editor.config.capacity)
    (hterminal : (input.isTerminal || editor.terminal.assumeTerminal) = true →
      editor.terminal.isPlain = true ∨
        (∃ columns ≤ 65535, editor.terminal.fixedColumns = some columns) ∧
          (editor.terminal.assumeTerminal || mode.isTerminal) = true) (rest : List Reading) :
    (editor.readLine mode (input.typed t rest) output prompt).result = .event (.line t) ∧
      (editor.readLine mode (input.typed t rest) output prompt).input =
        { input with queue := rest } ∧
      (editor.readLine mode (input.typed t rest) output prompt).editor =
        (editor.readLine mode (input.typed [] rest) output prompt).editor ∧
      (promptWidth prompt + byteLength t + 65535 ≤ maxCount →
        (editor.readLine mode (input.typed t rest) output prompt).inRange = true) := by
  have hsome : editor.config.capacity ≠ 0 := by omega
  have hnone : ∀ c ∈ ([] : Text), isAsciiControl c = false := fun c hc => absurd hc List.not_mem_nil
  by_cases hon : (input.isTerminal || editor.terminal.assumeTerminal) = true
  · by_cases hplain : editor.terminal.isPlain = true
    · obtain ⟨h, hrange⟩ := yields_readLine_of_isPlain hchars rest hfits hon hplain
      obtain ⟨hempty, -⟩ := yields_readLine_of_isPlain hnone rest (Nat.zero_le _) hon hplain
      exact ⟨h.result_eq, h.input_eq, h.editor_eq.trans hempty.editor_eq.symm, fun _ => hrange⟩
    · obtain ⟨⟨columns, hle, hcolumns⟩, hmode⟩ := (hterminal hon).resolve_left hplain
      obtain ⟨h, hrange⟩ :=
        yields_readLine_of_isTerminal hsome hchars rest hfits hon hplain hcolumns hmode
      obtain ⟨hempty, -⟩ :=
        yields_readLine_of_isTerminal hsome hnone rest (Nat.zero_le _) hon hplain hcolumns hmode
      exact ⟨h.result_eq, h.input_eq, h.editor_eq.trans hempty.editor_eq.symm,
        fun hwide => hrange (by omega)⟩
  · obtain ⟨h, hrange⟩ := yields_readLine_of_not_isTerminal hsome hchars rest hon
    obtain ⟨hempty, -⟩ := yields_readLine_of_not_isTerminal hsome hnone rest hon
    exact ⟨h.result_eq, h.input_eq, h.editor_eq.trans hempty.editor_eq.symm, fun _ => hrange⟩

/-- An editor that masks its lines of six bytes and wraps them. -/
def maskingEditor (terminal : TerminalSettings) : Editor := .ofConfig ⟨true, true, 6⟩ terminal

/-- An input on which a text of six bytes and one more byte are typed. -/
def sixBytes : Input := (Input.ofBytes [] true false none).typed ['a', 'é', '語'] [.byte 0x72]

/-- The text is read on a terminal of two columns, as a plain line, and without editing. -/
theorem readLine_typed_sixBytes :
    ((maskingEditor (.ofColumns 2)).readLine .ofPipe sixBytes (.fresh none) ['>']).result =
        .event (.line ['a', 'é', '語']) ∧
      ((maskingEditor (.ofColumns 2)).readLine .ofPipe sixBytes (.fresh none) ['>']).inRange =
        true ∧
      ((maskingEditor ⟨false, none, none⟩).readLine .ofPipe sixBytes (.fresh none) ['>']).result =
        .event (.line ['a', 'é', '語']) ∧
      ((maskingEditor ⟨true, none, some "dumb".toList⟩).readLine .ofPipe sixBytes (.fresh none)
        ['>']).result = .event (.line ['a', 'é', '語']) := by
  have hchars : ∀ c ∈ ['a', 'é', '語'], isAsciiControl c = false := List.forall_mem_cons.mpr
    ⟨by decide, List.forall_mem_cons.mpr ⟨by decide, List.forall_mem_singleton.mpr (by decide)⟩⟩
  have hread (terminal : TerminalSettings) := @readLine_typed (maskingEditor terminal) .ofPipe
    (.ofBytes [] true false none) (.fresh none) ['>'] ['a', 'é', '語'] hchars
    (show 1 ≤ 6 by decide) (show byteLength ['a', 'é', '語'] ≤ 6 by decide)
  obtain ⟨hedited, -, -, hrange⟩ :=
    hread (.ofColumns 2) (fun _ => Or.inr ⟨⟨2, by decide, rfl⟩, rfl⟩) [.byte 0x72]
  obtain ⟨hplain, -⟩ :=
    hread ⟨false, none, none⟩ (fun hon => absurd hon Bool.false_ne_true) [.byte 0x72]
  obtain ⟨hunedited, -⟩ :=
    hread ⟨true, none, some "dumb".toList⟩ (fun _ => Or.inl (by decide)) [.byte 0x72]
  exact ⟨hedited, hrange (by decide), hplain, hunedited⟩

end Editor

end Typeline
