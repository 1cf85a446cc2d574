import Mathlib.Data.List.Forall2
import Typeline.Proofs.History.Slots
import Typeline.Proofs.Session.Runs

/-!
# Plain lines

Input that is no terminal is not edited. A session on it cuts what it reads at the newlines and
gives out one line after the other, of any length and with all the bytes in it. Between any two
bytes the input may have nothing ready or may fail, and it may end more than once; what has been
read of a line then stays where it is until the line is over. So the lines are those into which the
whole input falls when it is split at its newlines and ends, and all that stands in between is left
out.

## Main definitions

* `Input.Gives` : readings that an input gives, one after the other.
* `lineEvents` : the lines into which readings fall.
* `Reading.AnsweredBy` : what comes of a reading at which feeding a session ends.
* `Session.results` : what feeding a session some times leads to.

## Main results

* `Session.results_spec` : the results of a session that has read a part of a line.
* `Session.plain_lines` : the lines of input that is no terminal.
-/

namespace Typeline

/-! ### Scripts of readings -/

/-- Readings that an input gives, one after the other. -/
def Input.Gives (input : Input) : List Reading → Prop
  | [] => True
  | r :: script => input.read.1 = r ∧ input.read.2.Gives script

/-- An input gives its queue, and then as often as one likes what comes behind it. -/
theorem Input.gives_queue (input : Input) (n : Nat) :
    input.Gives (input.queue ++ List.replicate n (.silent input.drained)) := by
  obtain ⟨queue, drained, drainedSoon, isTerminal, columns⟩ := input
  induction queue with
  | nil =>
    induction n with
    | zero => trivial
    | succ n ih => exact ⟨rfl, ih⟩
  | cons r queue ih => exact ⟨rfl, ih⟩

/-- Whether a reading ends a line: a newline does, and so does the end of the input. -/
def Reading.endsLine (r : Reading) : Bool := r = .byte 0x0A || r = .silent .ended

/-- Whether feeding a session ends at a reading: it does where a line ends, and where there is no
byte. -/
def Reading.endsFeed (r : Reading) : Bool := r.endsLine || r.byte?.isNone

/-- Among the scripts that an input gives is one for any number of times that a session is fed. -/
theorem Input.exists_gives (input : Input) (n : Nat) :
    ∃ script, input.Gives script ∧ script.countP Reading.endsFeed = n := by
  obtain ⟨queue, drained, drainedSoon, isTerminal, columns⟩ := input
  induction queue generalizing n with
  | nil =>
    refine ⟨_, gives_queue _ n, ?_⟩
    rw [List.nil_append, List.countP_replicate, if_pos (by simp [Reading.endsFeed, Reading.byte?])]
  | cons r queue ih =>
    cases n with
    | zero => exact ⟨[], trivial, rfl⟩
    | succ n =>
      by_cases hr : r.endsFeed = true
      · obtain ⟨script, hscript, hcount⟩ := ih n
        exact ⟨r :: script, ⟨rfl, hscript⟩, by rw [List.countP_cons_of_pos hr, hcount]⟩
      · obtain ⟨script, hscript, hcount⟩ := ih (n + 1)
        exact ⟨r :: script, ⟨rfl, hscript⟩, by rw [List.countP_cons_of_neg hr, hcount]⟩

/-- What comes of a reading at which feeding a session ends. -/
def Reading.AnsweredBy : Reading → FeedResult → Prop
  | .silent .notReady, result => result = .more
  | .silent .failed, result => result = .error (.io .device)
  | _, result => ∃ event, result = .done event

theorem Reading.answeredBy_of_endsLine {r : Reading} (h : r.endsLine = true) (event : EditEvent) :
    r.AnsweredBy (.done event) := by
  cases r with
  | byte b => exact ⟨event, rfl⟩
  | silent silence =>
    cases silence with
    | ended => exact ⟨event, rfl⟩
    | _ => exact absurd h (by decide)

/-- The event with which a session is over, if it is. -/
def FeedResult.event? : FeedResult → Option EditEvent
  | .done event => some event
  | _ => none

/-- The event at the end of a line. A newline ends any line, the end of the input only one that is
not empty. -/
def lineEvent (line : List UInt8) (last : Reading) : EditEvent :=
  if last = .silent .ended ∧ line = [] then .ended else .line (Utf8.lossy line)

/-- The bytes between the ends of lines. What stands behind the last end comes last. -/
def lineBytes (script : List Reading) : List (List UInt8) :=
  (script.splitOnP Reading.endsLine).map bytesIn

/-- The lines into which readings fall. What stands behind the last end of a line is none. -/
def lineEvents (script : List Reading) : List EditEvent :=
  List.zipWith lineEvent (lineBytes script) (script.filter Reading.endsLine)

/-- The lines into which readings fall when a part of the first line has been read before. -/
def lineEventsAfter (line : List UInt8) (script : List Reading) : List EditEvent :=
  List.zipWith lineEvent ((lineBytes script).modifyHead (line ++ ·))
    (script.filter Reading.endsLine)

theorem lineEventsAfter_nil (script : List Reading) :
    lineEventsAfter [] script = lineEvents script := by
  rw [lineEventsAfter, lineEvents]
  cases lineBytes script <;> rfl

section Lines

variable {r : Reading} (line : List UInt8) (script : List Reading)

private theorem lineBytes_of_endsLine (h : r.endsLine = true) :
    lineBytes (r :: script) = [] :: lineBytes script := by
  rw [lineBytes, List.splitOnP_cons_eq_if_modifyHead, if_pos h]
  rfl

private theorem lineBytes_of_not_endsLine (h : r.endsLine = false) :
    lineBytes (r :: script) = (lineBytes script).modifyHead (r.byte?.toList ++ ·) := by
  have hne := List.splitOnP_ne_nil Reading.endsLine script
  obtain ⟨first, rest, hsplit⟩ := List.exists_cons_of_ne_nil hne
  rw [lineBytes, lineBytes, List.splitOnP_cons_eq_if_modifyHead, if_neg (by simp [h]), hsplit]
  cases r <;> rfl

/-- The end of a line. -/
theorem lineEventsAfter_of_endsLine (h : r.endsLine = true) :
    lineEventsAfter line (r :: script) = lineEvent line r :: lineEvents script := by
  rw [lineEventsAfter, lineBytes_of_endsLine script h, List.filter_cons_of_pos h,
    List.modifyHead_cons, List.append_nil, List.zipWith_cons_cons, lineEvents]

/-- Any other reading. A byte is put to the line, and what is none makes no difference. -/
theorem lineEventsAfter_of_not_endsLine (h : r.endsLine = false) :
    lineEventsAfter line (r :: script) = lineEventsAfter (line ++ r.byte?.toList) script := by
  rw [lineEventsAfter, lineEventsAfter, lineBytes_of_not_endsLine script h,
    List.filter_cons_of_neg (by simp [h]), List.modifyHead_modifyHead]
  simp only [Function.comp_def, List.append_assoc]

end Lines

namespace Session

/-! ### Feeding a session once -/

/-- What feeding a session some times leads to. -/
def results (s : Session) (n : Nat) : List FeedResult :=
  (List.range n).map fun m => (s.fed m).feed.1

theorem results_succ (s : Session) (n : Nat) :
    s.results (n + 1) = s.feed.1 :: s.feed.2.results n := by
  rw [results, List.range_succ_eq_map, List.map_cons, List.map_map, results]
  refine congrArg _ (List.map_congr_left fun m _ => ?_)
  rw [fed_feed]
  rfl

private theorem results_congr {s t : Session} (h : s.feed = t.feed) (n : Nat) :
    s.results n = t.results n := by
  cases n with
  | zero => rfl
  | succ n => rw [results_succ, results_succ, h]

/-- A session that has read a part of a line. -/
def withPlain (s : Session) (plainLine : List UInt8) (input : Input) : Session :=
  { s with plainLine, input }

section Plain

variable {s : Session}

/-- **Feeding a session on plain lines.** A newline ends the line, any other byte is put to it, and
without a byte feeding ends. -/
theorem feed_eq_read (h : s.isTerminal = false) :
    s.feed = match s.input.read.1 with
      | .byte b =>
        if b = 0x0A then
          (.done (.line (Utf8.lossy s.plainLine)), s.withPlain [] s.input.read.2)
        else (s.withPlain (s.plainLine ++ [b]) s.input.read.2).feed
      | .silent silence =>
        ((readPlain.readSilence silence s.plainLine []).1,
          s.withPlain (readPlain.readSilence silence s.plainLine []).2.1 s.input.read.2) := by
  rw [feed_plain (by simp [h]), plainReading, Input.read, Input.take]
  cases hqueue : s.input.queue with
  | nil =>
    simp only [readPlain, snd_readSilence]
    rw [← hqueue]
    rfl
  | cons r queue =>
    cases r with
    | silent silence =>
      cases silence with
      | ended =>
        simp only [readPlain, readPlain.readSilence]
        split <;> rfl
      | _ => rfl
    | byte b =>
      simp only [readPlain]
      split
      · rfl
      · rw [feed_plain (by simp [withPlain, h])]
        rfl

private theorem feed_of_not_endsFeed (h : s.isTerminal = false)
    (hread : s.input.read.1.endsFeed = false) :
    s.feed = (s.withPlain (s.plainLine ++ s.input.read.1.byte?.toList) s.input.read.2).feed := by
  rw [feed_eq_read h]
  cases hfirst : s.input.read.1 with
  | silent silence => simp [hfirst, Reading.endsFeed, Reading.byte?] at hread
  | byte b =>
    rw [hfirst] at hread
    have hb : b ≠ 0x0A := by
      rintro rfl
      exact absurd hread (by decide)
    simp only [if_neg hb]
    rfl

private theorem feed_of_endsLine (h : s.isTerminal = false)
    (hread : s.input.read.1.endsLine = true) :
    s.feed = (.done (lineEvent s.plainLine s.input.read.1), s.withPlain [] s.input.read.2) := by
  rw [feed_eq_read h]
  rw [Reading.endsLine, Bool.or_eq_true, decide_eq_true_iff, decide_eq_true_iff] at hread
  rcases hread with hnewline | hended
  · rw [hnewline]
    rfl
  · rw [hended]
    simp only [lineEvent, readPlain.readSilence, List.isEmpty_iff]
    split
    · next hempty => simp [hempty]
    · next hempty => simp [hempty]

private theorem feed_of_interruption (h : s.isTerminal = false)
    (hlast : s.input.read.1.endsLine = false) (hread : s.input.read.1.endsFeed = true) :
    ∃ result, s.feed = (result, s.withPlain s.plainLine s.input.read.2) ∧
      s.input.read.1.AnsweredBy result ∧ result.event? = none ∧
      s.input.read.1.byte? = none := by
  rw [feed_eq_read h]
  cases hfirst : s.input.read.1 with
  | byte b =>
    rw [hfirst] at hlast hread
    rw [Reading.endsFeed, hlast] at hread
    exact absurd hread Bool.false_ne_true
  | silent silence =>
    cases silence with
    | ended =>
      rw [hfirst] at hlast
      exact absurd hlast (by decide)
    | notReady => exact ⟨.more, rfl, rfl, rfl, rfl⟩
    | failed => exact ⟨.error (.io .device), rfl, rfl, rfl, rfl⟩

end Plain

/-- **The results of a session on plain lines.** Fed as often as a script has readings that end it,
the session answers these in their order, and its events are the lines of the script with what had
been read of the first one before. -/
theorem results_spec (script : List Reading) {s : Session} (h : s.isTerminal = false)
    (hscript : s.input.Gives script) :
    List.Forall₂ Reading.AnsweredBy (script.filter Reading.endsFeed)
        (s.results (script.countP Reading.endsFeed)) ∧
      (s.results (script.countP Reading.endsFeed)).filterMap FeedResult.event? =
        lineEventsAfter s.plainLine script := by
  induction script generalizing s with
  | nil =>
    refine ⟨.nil, ?_⟩
    rw [lineEventsAfter, List.filter_nil, List.zipWith_nil_right]
    rfl
  | cons r script ih =>
    obtain ⟨rfl, hrest⟩ := hscript
    by_cases hread : s.input.read.1.endsFeed = true
    · rw [List.filter_cons_of_pos hread, List.countP_cons_of_pos hread, results_succ]
      by_cases hlast : s.input.read.1.endsLine = true
      · obtain ⟨hanswers, hevents⟩ := ih (s := s.withPlain [] s.input.read.2) h hrest
        rw [feed_of_endsLine h hlast, lineEventsAfter_of_endsLine _ _ hlast]
        refine ⟨.cons (Reading.answeredBy_of_endsLine hlast _) hanswers, ?_⟩
        rw [← lineEventsAfter_nil]
        exact congrArg _ hevents
      · have hinside := eq_false_of_ne_true hlast
        obtain ⟨result, hfeed, hanswer, hevent, hbyte⟩ := feed_of_interruption h hinside hread
        obtain ⟨hanswers, hevents⟩ := ih (s := s.withPlain s.plainLine s.input.read.2) h hrest
        rw [hfeed, lineEventsAfter_of_not_endsLine _ _ hinside, hbyte, Option.toList_none,
          List.append_nil]
        refine ⟨.cons hanswer hanswers, ?_⟩
        rw [List.filterMap_cons_none hevent, hevents]
        rfl
    · have hinside := eq_false_of_ne_true hread
      have hbody : s.input.read.1.endsLine = false := (Bool.or_eq_false_iff.mp hinside).1
      rw [List.filter_cons_of_neg hread, List.countP_cons_of_neg hread,
        results_congr (feed_of_not_endsFeed h hinside), lineEventsAfter_of_not_endsLine _ _ hbody]
      exact ih h hrest

section Started

variable {editor : Editor} {mode : RawMode} {input : Input} {output : Output} {prompt : Text}

private theorem start_of_plain (hcapacity : editor.config.capacity ≠ 0)
    (hplain : (editor.terminal.assumeTerminal || input.isTerminal) = false) :
    start editor mode input output prompt = .ok (unopened editor input output prompt false) := by
  rw [start, if_neg hcapacity]
  simp only [hplain]
  rfl

/-- Feeding a session on plain lines changes what has been read, and nothing else. -/
theorem fed_of_plain {s : Session} (h : s.isTerminal = false) (n : Nat) :
    ∃ plainLine input, s.fed n = s.withPlain plainLine input := by
  induction n with
  | zero => exact ⟨s.plainLine, s.input, rfl⟩
  | succ n ih =>
    obtain ⟨plainLine, input, hfed⟩ := ih
    rw [fed, hfed, feed_plain (by simp [withPlain, h])]
    exact ⟨_, _, rfl⟩

/-- **Plain lines.** Fed as often as its script has readings that end this, a session on input that
is no terminal answers these readings in their order, and its events are the lines of the script.
For any number of times there is such a script. Nothing is written, neither then nor when the
session is finished, and the editor stays as it is, and with it the history. -/
theorem plain_lines (hcapacity : editor.config.capacity ≠ 0)
    (hplain : (editor.terminal.assumeTerminal || input.isTerminal) = false) :
    ∃ s, start editor mode input output prompt = .ok s ∧
      (∀ script, input.Gives script →
        List.Forall₂ Reading.AnsweredBy (script.filter Reading.endsFeed)
          (s.results (script.countP Reading.endsFeed)) ∧
        (s.results (script.countP Reading.endsFeed)).filterMap FeedResult.event? =
          lineEvents script) ∧
      (∀ n, ∃ script, input.Gives script ∧ script.countP Reading.endsFeed = n) ∧
      ∀ n, (s.fed n).output = output ∧ (s.fed n).editor = editor ∧
        (s.fed n).finish.output = output ∧
        (editor.history.hasLiveSlot = false → (s.fed n).finish.editor = editor) := by
  refine ⟨_, start_of_plain hcapacity hplain, fun script hscript => ?_, input.exists_gives,
    fun n => ?_⟩
  · have hspec := results_spec script (s := unopened editor input output prompt false) rfl hscript
    rwa [show (unopened editor input output prompt false).plainLine = [] from rfl,
      lineEventsAfter_nil] at hspec
  · obtain ⟨plainLine, input', hfed⟩ :=
      fed_of_plain (s := unopened editor input output prompt false) rfl n
    rw [hfed]
    refine ⟨rfl, rfl, rfl, fun hslot => ?_⟩
    have hclosed := History.endLiveSlot_of_not_hasLiveSlot hslot
    exact congrArg (fun history : History => { editor with history }) hclosed

/-- Two lines that are longer than any line that is edited, with a pause, the start of an escape
sequence and a failure in them. The second line is cut off by the end of the input. -/
def brokenInput : Input where
  queue := [.byte 0x61, .silent .notReady, .byte 0x1B, .byte 0x5B, .byte 0x0A, .byte 0xFF,
    .silent .failed, .byte 0x62]
  drained := .ended
  drainedSoon := .ended
  isTerminal := false
  columns := none

/-- An editor whose lines have room for one byte, for input that may be no terminal. -/
def tinyEditor : Editor := Editor.ofConfig ⟨false, false, 1⟩ ⟨false, none, none⟩

theorem plain_lines_brokenInput : ∃ s,
    start tinyEditor .ofPipe brokenInput (.fresh none) ['>'] = .ok s ∧
      List.Forall₂ Reading.AnsweredBy
        [.silent .notReady, .byte 0x0A, .silent .failed, .silent .ended, .silent .ended]
        (s.results 5) ∧
      (s.results 5).filterMap FeedResult.event? =
        [.line ['a', '\x1b', '['], .line ['\uFFFD', 'b'], .ended] ∧
      (s.fed 5).finish.output = .fresh none ∧ (s.fed 5).finish.editor = tinyEditor := by
  obtain ⟨s, hstart, hscript, -, hkept⟩ :=
    @plain_lines tinyEditor .ofPipe brokenInput (.fresh none) ['>'] (by decide) rfl
  obtain ⟨hanswers, hevents⟩ := hscript _ (brokenInput.gives_queue 2)
  obtain ⟨-, -, houtput, heditor⟩ := hkept 5
  exact ⟨s, hstart, hanswers, hevents, houtput, heditor rfl⟩

end Started

end Session

end Typeline
