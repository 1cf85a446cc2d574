import Typeline.Proofs.Session.Calls
import Typeline.Proofs.Session.Runs

/-!
# Sessions on input with pauses

A program that must not wait for the keyboard feeds a session whenever something has come, and a key
may then be there only in part. Such a session goes the way of one that waits: feeding it either
meets a pause, and then changes nothing but how much has been read, or it does what it does on the
input without its pauses. So the two end with the same outcome.

This needs that no pause stands in an escape sequence. Which sequences there are is a matter of the
session, since what stands in one line is not read in another.

## Main definitions

* `Session.withoutPauses` : a session with the pauses taken from its input.
* `Session.Interrupted` : the input is bytes with pauses in between, but not in escape sequences.
* `Session.Stops` : feeding a session ends at a pause and makes no difference to what follows.
* `Session.MeetsPause` : the last that is read when a session is fed is a pause.

## Main results

* `Session.Interrupted.feed_withoutPauses` : one key with pauses and without.
* `Session.Interrupted.exists_run` : a whole edit with pauses and without.
* `Editor.driveLine_of_interrupted` : driving a session and reading a line agree.
-/

namespace Typeline

/-- An outcome without the pauses in the input that is left. -/
def ReadOutcome.withoutPauses (o : ReadOutcome) : ReadOutcome :=
  { o with input := o.input.withoutPauses }

namespace Session

/-- A session with the pauses taken from its input. -/
def withoutPauses (s : Session) : Session := s.withKeyboard s.decoder s.input.withoutPauses

/-- What a session reads next: a byte that was put aside comes first. -/
def upcoming (s : Session) : List Reading := s.decoder.upcoming s.input

/-- The next key of a session is an escape sequence, or the escape key. -/
def StartsEscape (s : Session) : Prop :=
  s.isTerminal = true ∧ s.decoder.pending = [] ∧ s.upcoming.head? = some (.byte 0x1B)

instance (s : Session) : Decidable s.StartsEscape := inferInstanceAs (Decidable (_ ∧ _ ∧ _))

/-- Where a session has `left` readings to go, it is inside an escape sequence, when it is fed until
its edit is over. -/
def SplitsEscape (s : Session) (left : Nat) : Prop :=
  ∃ n, (∀ m < n, (s.fed m).feed.1 = .more) ∧ (s.fed n).StartsEscape ∧
    (s.fed (n + 1)).input.queue.length < left ∧ left < (s.fed n).upcoming.length

/-- The input of a session is bytes with pauses in between, and then it ends. No pause stands in an
escape sequence, as these are read from the input without its pauses. -/
structure Interrupted (s : Session) : Prop where
  paused : Paused s.input.queue
  drained : s.input.drained = .ended
  drainedSoon : s.input.drainedSoon ≠ .failed
  whole : ∀ later, .silent .notReady :: later <:+ s.input.queue →
    ¬s.withoutPauses.SplitsEscape (dropPauses later).length

/-- Feeding a session ends at a pause and leaves the next key, and all that is read for it, as they
were. -/
structure Stops (s : Session) : Prop where
  more : s.feed.1 = .more
  feed_eq : s.feed.2.withoutPauses.feed = s.withoutPauses.feed
  starts : s.feed.2.withoutPauses.StartsEscape →
    s.withoutPauses.StartsEscape ∧ s.feed.2.withoutPauses.upcoming = s.withoutPauses.upcoming

/-- The last that is read when a session is fed is a pause. -/
def MeetsPause (s : Session) : Prop :=
  ∃ before, s.input.queue = before ++ .silent .notReady :: s.feed.2.input.queue

variable {s t : Session} {n : Nat}

/-! ### Plain lines -/

/-- Reading a plain line ends at a pause and goes on there, or it takes from a queue with pauses
what it takes from the queue without them. -/
theorem readPlain_dropPauses {queue : List Reading} (hpaused : Paused queue)
    (line : List UInt8) :
    ((readPlain .ended line queue).1 = .more ∧
      readPlain .ended line (dropPauses queue) =
        readPlain .ended (readPlain .ended line queue).2.1
          (dropPauses (readPlain .ended line queue).2.2)) ∨
    readPlain .ended line (dropPauses queue) =
      ((readPlain .ended line queue).1, (readPlain .ended line queue).2.1,
        dropPauses (readPlain .ended line queue).2.2) := by
  induction queue generalizing line with
  | nil =>
    refine Or.inr ?_
    rw [dropPauses_nil, readPlain, readPlain.readSilence]
    split <;> rfl
  | cons r queue ih =>
    obtain rfl | ⟨b, rfl⟩ := hpaused.cases_cons
    · exact Or.inl ⟨rfl, rfl⟩
    · rw [dropPauses_byte, readPlain, readPlain]
      split
      · exact Or.inr rfl
      · exact ih (hpaused.of_suffix (List.suffix_cons _ _)) _

/-- If the last that is read of a plain line is a pause, the line goes on. -/
theorem fst_readPlain_of_pause {before later queue : List Reading} {line : List UInt8}
    (hqueue : queue = before ++ .silent .notReady :: later)
    (hlater : (readPlain .ended line queue).2.2 = later) :
    (readPlain .ended line queue).1 = .more := by
  induction queue generalizing line before with
  | nil => exact absurd hqueue (by simp)
  | cons r queue ih =>
    cases before with
    | nil =>
      obtain ⟨rfl, -⟩ := List.cons.inj hqueue
      rfl
    | cons r' before =>
      rw [List.cons_append] at hqueue
      obtain ⟨rfl, htail⟩ := List.cons.inj hqueue
      have hlength := congrArg List.length htail
      rw [List.length_append, List.length_cons] at hlength
      -- Otherwise the first reading would be the last one.
      have hrest : (readPlain .ended line (r :: queue)).2.2 ≠ queue := by
        rintro heq
        have := congrArg List.length (heq.symm.trans hlater)
        omega
      cases r with
      | silent s => exact absurd (snd_readSilence s line queue) hrest
      | byte b =>
        rw [readPlain] at hlater hrest ⊢
        split at hlater
        · next hend => exact absurd (by rw [if_pos hend]) hrest
        · next hend =>
          rw [if_neg hend]
          exact ih htail hlater

/-! ### One key -/

/-- On a terminal a session that reads no key does nothing but read. -/
theorem feed_of_notReady (hterminal : s.isTerminal = true)
    (h : (s.decoder.read s.input).1 = .silent .notReady) :
    s.feed = (.more, s.withKeyboard (s.decoder.read s.input).2.1 (s.decoder.read s.input).2.2) := by
  rw [feed_eq_respond hterminal, h]
  rfl

private theorem queue_feed (hterminal : s.isTerminal = true) : s.feed.2.input.queue =
    (KeyDecoder.readQueue s.input.drained s.input.drainedSoon s.decoder.unstashed
      s.upcoming).2.2 := by
  rw [feed_eq_respond hterminal]
  rfl

namespace Interrupted

theorem unbroken (h : s.Interrupted) (hterminal : s.isTerminal = true)
    (hpending : s.decoder.pending = []) {later : List Reading}
    (hupcoming : s.upcoming = .byte 0x1B :: later) :
    KeyDecoder.Unbroken s.input.drainedSoon later := by
  intro later' hlater'
  by_contra hshort
  have hplain : s.withoutPauses.upcoming = .byte 0x1B :: dropPauses later := by
    rw [upcoming] at hupcoming
    refine (s.decoder.upcoming_withoutPauses s.input).trans ?_
    rw [hupcoming, dropPauses_byte]
  have hread : (s.withoutPauses.fed 1).input.queue =
      (KeyDecoder.readEscape s.input.drainedSoon (dropPauses later)).2 := by
    have hescape : s.withoutPauses.decoder.unstashed.accept 0x1B = (.idle, .escape) :=
      KeyDecoder.accept_escape hpending
    rw [fed, fed, queue_feed (s := s.withoutPauses) hterminal, hplain,
      KeyDecoder.readQueue_of_escape hescape]
    rfl
  refine h.whole later' (hlater'.trans (KeyDecoder.suffix_of_upcoming_eq_cons hupcoming))
    ⟨0, fun m hm => absurd hm (Nat.not_lt_zero m), ⟨hterminal, hpending, ?_⟩, ?_, ?_⟩
  · rw [fed, hplain, List.head?_cons]
  · rw [hread]
    exact Nat.lt_of_not_le hshort
  · have hlength := (hlater'.filter (· ≠ .silent .notReady)).length_le
    rw [fed, hplain, List.length_cons]
    exact Nat.lt_succ_of_le hlength

private theorem feed_withoutPauses_of_isTerminal (h : s.Interrupted)
    (hterminal : s.isTerminal = true) :
    s.Stops ∨ s.withoutPauses.feed = (s.feed.1, s.feed.2.withoutPauses) := by
  obtain ⟨hstop, hread, hidle⟩ | hsame := KeyDecoder.read_withoutPauses h.paused h.drained
    h.drainedSoon fun hpending later => h.unbroken hterminal hpending
  · have hfeed := feed_of_notReady hterminal hstop
    refine Or.inl ⟨by rw [hfeed], ?_, ?_⟩
    · rw [hfeed, withoutPauses, withoutPauses, withKeyboard_withKeyboard,
        feed_withKeyboard _ _ hterminal, feed_withKeyboard _ _ hterminal, hread]
      rfl
    · rw [hfeed]
      rintro ⟨-, hpending, hhead⟩
      obtain ⟨hnone, hupcoming⟩ := hidle hpending
      exact ⟨⟨hterminal, hnone, (congrArg List.head? hupcoming).symm.trans hhead⟩, hupcoming⟩
  · refine Or.inr ?_
    rw [withoutPauses, feed_withKeyboard _ _ hterminal, hsame, respond_withKeyboard,
      feed_eq_respond hterminal]
    rfl

private theorem feed_withoutPauses_of_not_isTerminal (h : s.Interrupted)
    (hterminal : ¬s.isTerminal = true) :
    s.Stops ∨ s.withoutPauses.feed = (s.feed.1, s.feed.2.withoutPauses) := by
  have hfeed := feed_plain hterminal
  have hplain : s.plainReading = readPlain .ended s.plainLine s.input.queue := by
    rw [plainReading, h.drained]
  have hdropped : s.withoutPauses.plainReading =
      readPlain .ended s.plainLine (dropPauses s.input.queue) :=
    congrArg (readPlain · _ _) h.drained
  obtain ⟨hstop, hread⟩ | hsame := readPlain_dropPauses h.paused s.plainLine
  · have hterminal' : ¬s.feed.2.withoutPauses.isTerminal = true := by
      rw [hfeed]
      exact hterminal
    have hnext : s.feed.2.withoutPauses.plainReading = s.withoutPauses.plainReading := by
      rw [hdropped, hread, ← hplain, hfeed]
      exact congrArg (readPlain · _ _) h.drained
    refine Or.inl ⟨?_, ?_, fun hstarts => absurd hstarts.1 hterminal'⟩
    · rw [hfeed, hplain]
      exact hstop
    · rw [feed_plain hterminal', feed_plain (s := s.withoutPauses) hterminal, hnext, hfeed]
      rfl
  · refine Or.inr ?_
    rw [feed_plain (s := s.withoutPauses) hterminal, hdropped, hsame, ← hplain, hfeed]
    rfl

/-- **One key with pauses and without.** Feeding a session either ends at a pause and leaves the
next key as it was, or it does what it does without the pauses. -/
theorem feed_withoutPauses (h : s.Interrupted) :
    s.Stops ∨ s.withoutPauses.feed = (s.feed.1, s.feed.2.withoutPauses) := by
  by_cases hterminal : s.isTerminal = true
  · exact h.feed_withoutPauses_of_isTerminal hterminal
  · exact h.feed_withoutPauses_of_not_isTerminal hterminal

end Interrupted

/-- What is inside of an escape sequence after a pause was so before. -/
theorem SplitsEscape.of_stops {left : Nat} (hstops : s.Stops)
    (h : s.feed.2.withoutPauses.SplitsEscape left) : s.withoutPauses.SplitsEscape left := by
  obtain ⟨n, hongoing, hstarts, hafter, hbefore⟩ := h
  have hfed (n : Nat) : s.feed.2.withoutPauses.fed (n + 1) = s.withoutPauses.fed (n + 1) := by
    rw [← fed_feed, ← fed_feed, hstops.feed_eq]
  rw [hfed] at hafter
  refine ⟨n, fun m hm => ?_, ?_⟩
  · cases m with
    | zero => exact (congrArg Prod.fst hstops.feed_eq).symm.trans (hongoing 0 hm)
    | succ m => exact hfed m ▸ hongoing (m + 1) hm
  · cases n with
    | zero =>
      obtain ⟨hstarts', hupcoming⟩ := hstops.starts hstarts
      exact ⟨hstarts', hafter, Nat.lt_of_lt_of_eq hbefore (congrArg List.length hupcoming)⟩
    | succ n => exact hfed n ▸ ⟨hstarts, hafter, hbefore⟩

/-- What is inside of an escape sequence after a key was so before. -/
theorem SplitsEscape.of_feed {left : Nat} (hmore : s.feed.1 = .more)
    (h : s.feed.2.SplitsEscape left) : s.SplitsEscape left := by
  obtain ⟨n, hongoing, hsplit⟩ := h
  refine ⟨n + 1, fun m hm => ?_, ?_⟩
  · cases m with
    | zero => exact hmore
    | succ m => exact fed_feed s m ▸ hongoing m (Nat.lt_of_succ_lt_succ hm)
  · rwa [← fed_feed, ← fed_feed]

namespace Interrupted

/-- A session that has been fed is on such an input again. -/
theorem feed (h : s.Interrupted) (hmore : s.feed.1 = .more) : s.feed.2.Interrupted := by
  obtain ⟨queue, hsuffix, hinput⟩ := s.input_feed
  refine ⟨?_, ?_, ?_, fun later hlater hsplits => ?_⟩
  · rw [hinput]
    exact h.paused.of_suffix hsuffix
  · rw [hinput]
    exact h.drained
  · rw [hinput]
    exact h.drainedSoon
  · rw [hinput] at hlater
    refine h.whole later (hlater.trans hsuffix) ?_
    obtain hstops | hsame := h.feed_withoutPauses
    · exact hsplits.of_stops hstops
    · refine SplitsEscape.of_feed ?_ ?_
      · rw [hsame]
        exact hmore
      · rw [hsame]
        exact hsplits

/-! ### A whole edit -/

/-- **A whole edit with pauses and without.** Both end, with the same result and in the same
state. -/
theorem exists_run (h : s.Interrupted) (hn : s.left < n) :
    ∃ r t m, r ≠ .waiting ∧ s.run n = (r, t) ∧ s.withoutPauses.run m = (r, t.withoutPauses) := by
  induction n generalizing s with
  | zero => exact absurd hn (Nat.not_lt_zero _)
  | succ n ih =>
    have hstep := h.feed_withoutPauses
    by_cases hmore : s.feed.1 = .more
    · have hleft := left_feed h.drained hmore
      obtain ⟨r, t, m, hr, hrun, hplain⟩ := ih (h.feed hmore) (by omega)
      rw [run_of_more hmore]
      obtain hstops | hsame := hstep
      · obtain ⟨m, rfl⟩ : ∃ k, m = k + 1 := by
          cases m with
          | zero => exact absurd (congrArg Prod.fst hplain).symm hr
          | succ m => exact ⟨m, rfl⟩
        exact ⟨r, t, m + 1, hr, hrun, (run_congr hstops.feed_eq m).symm.trans hplain⟩
      · refine ⟨r, t, m + 1, hr, hrun, ?_⟩
        rw [run_of_more (by rw [hsame]; exact hmore), hsame]
        exact hplain
    · obtain hstops | hsame := hstep
      · exact absurd hstops.more hmore
      · refine ⟨_, _, 1, FeedResult.result_ne_waiting hmore, run_of_ne_more hmore n, ?_⟩
        rw [run_of_ne_more (by rw [hsame]; exact hmore), hsame]

theorem fed (h : s.Interrupted) (hmore : ∀ m < n, (s.fed m).feed.1 = .more) :
    (s.fed n).Interrupted := by
  induction n with
  | zero => exact h
  | succ n ih =>
    exact (ih fun m hm => hmore m (Nat.lt_succ_of_lt hm)).feed (hmore n n.lt_succ_self)

/-- A session that meets a pause before a key is complete does nothing but keep what it has read. -/
theorem exists_feed_of_meetsPause (h : s.Interrupted) (hmeets : s.MeetsPause)
    (hkey : s.key? .feed = none) : ∃ d input line,
      s.feed = (.more, { s with decoder := d, input, plainLine := line }) := by
  obtain ⟨before, hqueue⟩ := hmeets
  by_cases hterminal : s.isTerminal = true
  · have hne : s.upcoming ≠ [] := by
      rw [upcoming, KeyDecoder.upcoming, hqueue]
      simp
    obtain ⟨k, hread⟩ | hread := KeyDecoder.read_cases h.paused h.drained h.drainedSoon hne
    · rw [key?, if_pos hterminal, hread] at hkey
      exact absurd hkey (by simp [KeyReading.key?])
    · exact ⟨_, _, s.plainLine, feed_of_notReady hterminal hread⟩
  · rw [feed_plain hterminal] at hqueue ⊢
    simp only [plainReading, h.drained] at hqueue ⊢
    rw [fst_readPlain_of_pause hqueue rfl]
    exact ⟨s.decoder, _, _, rfl⟩

end Interrupted

private theorem outcome_withoutPauses (s : Session) (r : ReadResult) :
    s.withoutPauses.outcome r = (s.outcome r).withoutPauses := by
  rw [outcome, withoutPauses, finish_withKeyboard, ← s.input_finish]
  rfl

end Session

variable {editor : Editor} {mode : RawMode} {input : Input} {output : Output} {prompt : Text}

/-- **Driving a session and reading a line agree.** Where the input is edited, let the width of the
terminal be fixed. If the input is interrupted by pauses, but not in escape sequences, then feeding
a session until its edit is over has the outcome of reading a line from the input without its
pauses, up to those in what is left of it; and wherever a feed meets a pause before a key is
complete, it does nothing but keep what it has read. -/
theorem Editor.driveLine_of_interrupted
    (hterminal : (input.isTerminal || editor.terminal.assumeTerminal) = true →
      editor.terminal.isPlain = false ∧ editor.terminal.fixedColumns.isSome = true)
    (hinput : ∀ s, Session.start editor mode input output prompt = .ok s → s.Interrupted) :
    (∀ feeds, 2 * input.queue.length < feeds →
      (editor.driveLine mode input output prompt feeds).result ≠ .waiting ∧
      (editor.driveLine mode input output prompt feeds).withoutPauses =
        editor.readLine mode input.withoutPauses output prompt) ∧
    ∀ s, Session.start editor mode input output prompt = .ok s → ∀ n,
      (∀ m < n, (s.fed m).feed.1 = .more) → (s.fed n).MeetsPause → (s.fed n).key? .feed = none →
        ∃ d input line,
          (s.fed n).feed = (.more, { s.fed n with decoder := d, input, plainLine := line }) := by
  refine ⟨fun feeds hfeeds => ?_, fun s hstart n hmore hmeets hkey =>
    ((hinput s hstart).fed hmore).exists_feed_of_meetsPause hmeets hkey⟩
  have hedited : ¬((input.isTerminal || editor.terminal.assumeTerminal) &&
      editor.terminal.isPlain) = true := by
    rw [Bool.and_eq_true]
    rintro ⟨hon, hplain⟩
    exact absurd hplain (by simp [(hterminal hon).1])
  have hfixed : (editor.terminal.assumeTerminal || input.isTerminal) = true →
      editor.terminal.fixedColumns.isSome = true := by
    rw [Bool.or_comm]
    exact fun hon => (hterminal hon).2
  obtain ⟨e, hstart⟩ | ⟨t, hstart⟩ :=
    @Session.start_of_fixedColumns editor mode input output prompt hfixed
  · have hpaused : Session.start editor mode input output prompt = .error e := hstart input.queue
    have hplain : Session.start editor mode input.withoutPauses output prompt = .error e :=
      hstart (dropPauses input.queue)
    rw [driveLine_of_start_eq_error hpaused,
      @readLine_of_start_eq_error editor mode input.withoutPauses output prompt e hedited hplain]
    exact ⟨by simp, rfl⟩
  · have hpaused : Session.start editor mode input output prompt =
      .ok (t.withKeyboard .idle input) := hstart input.queue
    have hplain : Session.start editor mode input.withoutPauses output prompt =
      .ok (t.withKeyboard .idle input).withoutPauses := hstart (dropPauses input.queue)
    have hleft : (t.withKeyboard .idle input).left = 2 * input.queue.length := rfl
    have hkept : (t.withKeyboard .idle input).withoutPauses.decoder.kept = 0 := rfl
    generalize t.withKeyboard .idle input = s at *
    have h := hinput s hpaused
    obtain ⟨r, u, n, hr, hrun, hrun'⟩ := h.exists_run (hleft.trans_lt hfeeds)
    have hbound := Session.run_keyBound_ne_waiting (s := s.withoutPauses) h.drained hkept
    rw [driveLine_of_start_eq_ok hpaused, hrun,
      @readLine_of_start_eq_ok editor mode input.withoutPauses output prompt _ hedited hplain,
      Session.run_eq_run hbound (by rw [hrun']; exact hr), hrun', Session.outcome_withoutPauses]
    exact ⟨hr, rfl⟩

/-- Typing an accented letter, going to the left, typing another letter and entering the line, with
pauses in the first letter and around the cursor key. -/
def pausedInput : Input where
  queue := [.byte 0xC3, .silent .notReady, .byte 0xA9, .silent .notReady, .byte 0x1B, .byte 0x5B,
    .byte 0x44, .silent .notReady, .byte 0x78, .byte 0x0D, .byte 0x72]
  drained := .ended
  drainedSoon := .notReady
  isTerminal := false
  columns := none

/-- An editor on a terminal that is only assumed. -/
def pausedEditor : Editor := .ofConfig .default (.ofColumns 80)

/-- The session of that editor on that input. -/
def pausedSession : Session :=
  { Session.unopened { pausedEditor with history := History.empty.beginLiveSlot } pausedInput
      ((Output.fresh none).write ['>', ' ']) ['>', ' '] true with columns := 80 }

private theorem interrupted_pausedSession : pausedSession.Interrupted := by
  refine ⟨fun r hr => ?_, rfl, by decide, ?_⟩
  · change Reading.silent r ∈ pausedInput.queue at hr
    simpa [pausedInput] using hr
  · rintro later hlater ⟨n, hmore, hstarts, hafter, hbefore⟩
    -- The fourth key ends the edit.
    have hn : n < 4 := by
      by_contra hn
      exact absurd (hmore 3 (by omega)) (by decide +kernel)
    have hall : ∀ l ∈ pausedInput.queue.tails, ∀ n < 4, l.head? = some (.silent .notReady) →
        (pausedSession.withoutPauses.fed n).StartsEscape →
        (pausedSession.withoutPauses.fed (n + 1)).input.queue.length < (dropPauses l.tail).length →
        ¬(dropPauses l.tail).length < (pausedSession.withoutPauses.fed n).upcoming.length := by
      decide +kernel
    exact hall _ ((List.mem_tails _ _).mpr hlater) n hn rfl hstarts hafter hbefore

/-- The letters are read as without the pauses, and one byte is left. The first feed meets a pause
in the first letter. -/
theorem Editor.driveLine_of_interrupted_pausedInput :
    (pausedEditor.driveLine .ofPipe pausedInput (.fresh none) ['>', ' '] 23).result =
        .event (.line ['x', 'é']) ∧
      (pausedEditor.driveLine .ofPipe pausedInput (.fresh none) ['>', ' '] 23).withoutPauses =
        pausedEditor.readLine .ofPipe pausedInput.withoutPauses (.fresh none) ['>', ' '] ∧
      ∃ d input line, pausedSession.feed =
        (.more, { pausedSession with decoder := d, input, plainLine := line }) := by
  obtain ⟨hread, hpause⟩ := @Editor.driveLine_of_interrupted pausedEditor .ofPipe pausedInput
    (.fresh none) ['>', ' '] (by decide) fun s hstart => by
      obtain rfl : s = pausedSession := (Except.ok.inj hstart).symm
      exact interrupted_pausedSession
  refine ⟨by decide +kernel, (hread 23 (by decide)).2, ?_⟩
  exact hpause pausedSession rfl 0 (fun m hm => absurd hm (Nat.not_lt_zero m))
    ⟨[.byte 0xC3], by decide +kernel⟩ (by decide +kernel)

end Typeline
