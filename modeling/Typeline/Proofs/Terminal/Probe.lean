import Typeline.Proofs.Terminal.Reports

/-!
# The cursor after a probe for the width

A probe asks where the cursor is, sends it far to the right and asks again. What it does with the
cursor after that depends on the second answer alone. If there is one, the cursor is sent back by
as many columns as lie between the two answers, which is where it was if both are true. If there is
none, because the report does not come, is malformed or is too long, the cursor is left at the far
right and the customary width is assumed.

## Main definitions

* `firstAnswer`, `secondAnswer` : what the two questions of a probe find.
* `probeText` : what a probe writes.
* `Screen.farColumn` : where the far right ends.

## Main results

* `findColumns_of_unknown` : what is found and written, if no write fails.
* `cursor_findColumns` : where a probe leaves the cursor.
-/

namespace Typeline

/-! ### What is found and written -/

/-- What the first question of a probe finds. -/
def firstAnswer (input : Input) (output : Output) : Option Nat := (queryColumn input output).1

/-- What the second question of a probe finds, after the cursor has been sent to the right. -/
def secondAnswer (input : Input) (output : Output) : Option Nat :=
  (queryColumn (queryColumn input output).2.1
    ((queryColumn input output).2.2.write (ControlSequence.cursorForward farRight).text)).1

/-- What brings the cursor back. -/
def returnText (start : Nat) : Option Nat → Text
  | none => []
  | some columns =>
    if start < columns then (ControlSequence.cursorBackward (columns - start)).text else []

/-- What a probe writes, given what its questions find. -/
def probeText (first second : Option Nat) : Text :=
  (ControlSequence.statusReport 6).text ++
    match first with
    | none => []
    | some start =>
      (ControlSequence.cursorForward farRight).text ++
        ((ControlSequence.statusReport 6).text ++ returnText start second)

section Unknown

variable {settings : TerminalSettings} {input : Input} {output : Output}

private theorem wrote_sentBack (start : Nat) (second : Option Nat) :
    output.Wrote (returnText start second) (sentBack output start second) := by
  cases second with
  | none => exact .nil output
  | some columns =>
    rw [sentBack, returnText]
    split
    · exact Output.wrote_write output _
    · exact .nil output

private theorem reliable_sentBack (h : output.Reliable) (start : Nat) (second : Option Nat) :
    (sentBack output start second).Reliable := by
  unfold sentBack
  split
  · exact h
  · split
    · exact h.write _
    · exact h

variable (hunknown : (settings.fixedColumns <|> input.columns) = none)
  (hwrites : output.Reliable)

include hunknown hwrites

/-- **A probe on a device that does not fail.** Without a first answer nothing but the question is
written. With one the second answer is the width, and the cursor is sent back if there is one. -/
theorem findColumns_of_unknown :
    (findColumns settings input output).1 =
        ((firstAnswer input output).bind fun _ => secondAnswer input output).getD defaultColumns ∧
      (findColumns settings input output).2.2.since output =
        probeText (firstAnswer input output) (secondAnswer input output) := by
  rw [findColumns, hunknown]
  dsimp only
  unfold firstAnswer secondAnswer
  have houtput₁ := queryColumn_output input output
  have hasked := hwrites.write (ControlSequence.statusReport 6).text
  rcases hfirst : queryColumn input output with ⟨_ | start, input₁, output₁⟩
  · rw [hfirst] at houtput₁
    dsimp only at houtput₁
    subst houtput₁
    rw [probeColumns_of_no_answer hfirst]
    refine ⟨rfl, ?_⟩
    rw [(Output.wrote_write output _).since_eq hasked.accepts, probeText, List.append_nil]
  · rw [hfirst] at houtput₁
    dsimp only at houtput₁
    subst houtput₁
    have houtput₂ := queryColumn_output input₁
      ((output.write (ControlSequence.statusReport 6).text).write
        (ControlSequence.cursorForward farRight).text)
    rcases hsecond : queryColumn input₁ ((output.write (ControlSequence.statusReport 6).text).write
      (ControlSequence.cursorForward farRight).text) with ⟨second, input₂, output₂⟩
    rw [hsecond] at houtput₂
    dsimp only at houtput₂
    subst houtput₂
    rw [probeColumns_of_answer hfirst hsecond]
    refine ⟨rfl, ?_⟩
    have hwrote := (Output.wrote_write output (ControlSequence.statusReport 6).text).append
      ((Output.wrote_write _ (ControlSequence.cursorForward farRight).text).append
        ((Output.wrote_write _ (ControlSequence.statusReport 6).text).append
          (wrote_sentBack start second)))
    exact hwrote.since_eq (reliable_sentBack ((hasked.write _).write _) start second).accepts

end Unknown

/-! ### Where the cursor is left -/

namespace Screen

/-- The column in which the cursor ends when it is sent to the far right. -/
def farColumn (s : Screen) : Nat := min (s.column + farRight) (s.columns - 1)

/-- The screen of a terminal after its width has been looked for. -/
def probed (s : Screen) (settings : TerminalSettings) (input : Input) (output : Output) : Screen :=
  s.feedText ((findColumns settings input output).2.2.since output)

/-- The cursor goes back by as many columns as lie between the answers. -/
theorem shows_returnText {s : Screen} (hcolumn : s.column < s.columns) (start : Nat)
    (second : Option Nat) :
    ∃ s', s.Shows (returnText start second) s' ∧ s'.row = s.row ∧
      s'.column = s.column - min 65535 (second.getD start - start) := by
  cases second with
  | none => exact ⟨s, .nil s, rfl, by simp⟩
  | some columns =>
    rw [returnText, Option.getD_some]
    split
    · refine ⟨_, s.shows_cursorBackward _, rfl, ?_⟩
      rw [moveTo_column]
      omega
    · exact ⟨s, .nil s, rfl, by omega⟩

/-- What a probe shows if its first question is answered. -/
theorem shows_probeText {s : Screen} (hcolumn : s.column < s.columns) (start : Nat)
    (second : Option Nat) :
    ∃ s', s.Shows (probeText (some start) second) s' ∧ s'.row = s.row ∧
      s'.column = s.farColumn - min 65535 (second.getD start - start) := by
  obtain ⟨s', hback, hrow, hplace⟩ := shows_returnText (s := s.moveTo s.row (s.column + farRight))
    (by rw [moveTo_column, moveTo_columns]; omega) start second
  exact ⟨s', (s.shows_statusReport 6).append ((s.shows_cursorForward (by decide) (by decide)).append
    ((shows_statusReport _ 6).append hback)), hrow, hplace⟩

section Probed

variable {settings : TerminalSettings} {input : Input} {output : Output} {s : Screen}
  (hunknown : (settings.fixedColumns <|> input.columns) = none)
  (hwrites : output.Reliable) (hreader : s.reader = StreamParser.start)

include hunknown hwrites hreader

private theorem probed_of_no_answer (hfirst : firstAnswer input output = none) :
    s.probed settings input output = s := by
  rw [probed, (findColumns_of_unknown hunknown hwrites).2, hfirst]
  exact feedText_of_shows hreader ((s.shows_statusReport 6).append (.nil s))

theorem cursor_probed (hcolumn : s.column < s.columns) {start : Nat}
    (hfirst : firstAnswer input output = some start) :
    (s.probed settings input output).row = s.row ∧
      (s.probed settings input output).column =
        s.farColumn - min 65535 ((secondAnswer input output).getD start - start) := by
  obtain ⟨s', hshows, hcursor⟩ := shows_probeText hcolumn start (secondAnswer input output)
  rw [probed, (findColumns_of_unknown hunknown hwrites).2, hfirst, feedText_of_shows hreader hshows]
  exact hcursor

/-- **Where a probe leaves the cursor.** If the first question finds nothing, nothing is moved. If
it finds the column of the cursor, the cursor is sent to the far right, and back by as many columns
as the second answer lies behind the first. That is where it was if the second answer is true as
well. If there is no second answer, the customary width is assumed and the cursor stays at the far
right, which is where it was only if that was the last column. -/
theorem cursor_findColumns (hcolumn : s.column < s.columns) :
    (firstAnswer input output = none →
        (findColumns settings input output).1 = defaultColumns ∧
          s.probed settings input output = s) ∧
      (firstAnswer input output = some (s.column + 1) →
        (findColumns settings input output).1 =
            (secondAnswer input output).getD defaultColumns ∧
          (s.probed settings input output).row = s.row ∧
          (s.probed settings input output).column = s.farColumn -
            min 65535 ((secondAnswer input output).getD (s.column + 1) - (s.column + 1)) ∧
          (secondAnswer input output = some (s.farColumn + 1) →
            (s.probed settings input output).column = s.column) ∧
          (secondAnswer input output = none →
            (s.probed settings input output).column = s.farColumn ∧
              ((s.probed settings input output).column = s.column ↔
                s.column + 1 = s.columns))) := by
  have hfound := (findColumns_of_unknown hunknown hwrites).1
  refine ⟨fun hfirst => ⟨?_, probed_of_no_answer hunknown hwrites hreader hfirst⟩,
    fun hfirst => ?_⟩
  · rw [hfound, hfirst]
    rfl
  · obtain ⟨hrow, hplace⟩ := cursor_probed hunknown hwrites hreader hcolumn hfirst
    refine ⟨?_, hrow, hplace, fun hsecond => ?_, fun hsecond => ?_⟩
    · rw [hfound, hfirst]
      rfl
    · rw [hplace, hsecond, Option.getD_some, farColumn, farRight]
      omega
    · rw [hplace, hsecond, Option.getD_none, Nat.sub_self, Nat.min_zero, Nat.sub_zero, farColumn,
        farRight]
      refine ⟨rfl, ?_⟩
      omega

end Probed

/-- A terminal of 120 columns that answers both questions of a probe. -/
def answering : Input := .ofBytes (Utf8.encode "\x1B[5;8R\x1B[5;120R".toList) false true none

theorem cursor_findColumns_answering :
    firstAnswer answering (.fresh none) = some (((blank 120).moveTo 0 7).column + 1) ∧
      secondAnswer answering (.fresh none) = some (((blank 120).moveTo 0 7).farColumn + 1) ∧
      (findColumns ⟨false, none, none⟩ answering (.fresh none)).1 = 120 ∧
      (((blank 120).moveTo 0 7).probed ⟨false, none, none⟩ answering (.fresh none)).column = 7 := by
  have hfirst : firstAnswer answering (.fresh none) =
      some (((blank 120).moveTo 0 7).column + 1) := by decide +kernel
  have hsecond : secondAnswer answering (.fresh none) =
      some (((blank 120).moveTo 0 7).farColumn + 1) := by decide +kernel
  have hfar : ((blank 120).moveTo 0 7).farColumn + 1 = 120 := by decide +kernel
  have hcursor := @cursor_findColumns ⟨false, none, none⟩ answering (.fresh none)
    ((blank 120).moveTo 0 7) rfl (fun _ => rfl) rfl (by decide)
  obtain ⟨hfound, -, -, hback, -⟩ := hcursor.2 hfirst
  exact ⟨hfirst, hsecond, hfound.trans (by rw [hsecond, hfar]; rfl), hback hsecond⟩

/-- A terminal of 80 columns that answers the first question only. -/
def halfAnswering : Input := .ofBytes (Utf8.encode "\x1B[5;8R".toList) false true none

/-- A terminal that answers the first question of a probe only is left with its cursor in the last
column. -/
theorem exists_column_probed_ne : ¬∀ (settings : TerminalSettings) (input : Input)
    (output : Output) (s : Screen), (settings.fixedColumns <|> input.columns) = none →
      output.Reliable → s.reader = StreamParser.start → s.column < s.columns →
      firstAnswer input output = some (s.column + 1) →
      (s.probed settings input output).column = s.column := by
  intro h
  have hfirst : firstAnswer halfAnswering (.fresh none) =
      some (((blank 80).moveTo 0 7).column + 1) := by decide +kernel
  have hsecond : secondAnswer halfAnswering (.fresh none) = none := by decide +kernel
  have hplace := (@cursor_probed ⟨false, none, none⟩ halfAnswering (.fresh none)
    ((blank 80).moveTo 0 7) rfl (fun _ => rfl) rfl (by decide) _ hfirst).2
  rw [h ⟨false, none, none⟩ halfAnswering (.fresh none) _ rfl (fun _ => rfl) rfl (by decide)
    hfirst,     hsecond] at hplace
  exact absurd hplace (by decide)

end Screen

end Typeline
