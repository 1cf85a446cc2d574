import Typeline.Proofs.Terminal.Replay
import Typeline.Terminal.Columns

/-!
# What has been written to a terminal

A write that fails loses the rest of its text, and the program goes on. As long as a device has
accepted all writes, what has been written to it has grown by all that was handed to it.
`Output.Wrote` says this of several writes in a row.

A terminal whose width is not known is probed before anything is drawn on it. The probe moves the
cursor to the far right and back again by as much as the terminal reports. A terminal that reports
its cursor as it is ends up as it was before.

## Main definitions

* `Output.Accepts`, `Output.Reliable` : no write has failed, and none ever fails.
* `Output.Wrote` : the writes of a text.
* `Output.since` : what has been written since an earlier time.
* `AnswersTruly` : a terminal reports its cursor as it is.

## Main results

* `wrote_findColumns` : what the probe writes is read to its end, and a screen with the cursor at
  the start of its row is left so.
-/

namespace Typeline

namespace Output

/-- The device has accepted all writes: none of them has failed. -/
def Accepts (o : Output) : Prop := ∀ n < o.writes, o.outcome n = .done

instance (o : Output) : Decidable o.Accepts := inferInstanceAs (Decidable (∀ n < o.writes, _))

/-- The device accepts every write that may come. -/
def Reliable (o : Output) : Prop := ∀ n, o.outcome n = .done

/-- What has been written since an earlier time. -/
def since (o earlier : Output) : Text := o.written.drop earlier.written.length

/-- A text has been written, unless a write failed. -/
def Wrote (o : Output) (t : Text) (o' : Output) : Prop :=
  o'.Accepts → o.Accepts ∧ o'.written = o.written ++ t

namespace Wrote

variable {o o' o'' : Output} {t u : Text}

theorem nil (o : Output) : o.Wrote [] o := fun h => ⟨h, (List.append_nil _).symm⟩

theorem append (h : o.Wrote t o') (h' : o'.Wrote u o'') : o.Wrote (t ++ u) o'' := by
  intro haccepts
  obtain ⟨hmiddle, hlater⟩ := h' haccepts
  obtain ⟨hfirst, hearlier⟩ := h hmiddle
  exact ⟨hfirst, by rw [hlater, hearlier, List.append_assoc]⟩

theorem since_eq (h : o.Wrote t o') (haccepts : o'.Accepts) : o'.since o = t := by
  rw [since, (h haccepts).2, List.drop_left]

end Wrote

theorem wrote_write (o : Output) (t : Text) : o.Wrote t (o.write t) := by
  rw [write, tryWrite]
  split
  · next hempty =>
    rw [List.isEmpty_iff.mp hempty]
    exact .nil o
  · split
    · exact fun haccepts => ⟨fun n hn => haccepts n (Nat.lt_succ_of_lt hn), rfl⟩
    · next hfailed =>
      -- The write that fails is the last one of those that would have to be accepted.
      exact fun haccepts => absurd (haccepts o.writes (Nat.lt_succ_self _)) (by simp [hfailed])

theorem wrote_foldl_write (o : Output) (texts : List Text) :
    o.Wrote texts.flatten (texts.foldl write o) := by
  induction texts generalizing o with
  | nil => exact .nil o
  | cons t texts ih => exact (o.wrote_write t).append (ih (o.write t))

theorem outcome_write (o : Output) (t : Text) : (o.write t).outcome = o.outcome := by
  rw [write, tryWrite]
  split
  · rfl
  · split <;> rfl

namespace Reliable

variable {o : Output} (h : o.Reliable)

include h

theorem accepts : o.Accepts := fun n _ => h n

theorem write (t : Text) : (o.write t).Reliable := fun n =>
  (congrFun (o.outcome_write t) n).trans (h n)

end Reliable

end Output

/-! ### The probe for the width -/

/-- What a question leaves of the output, whether it gets through or not. -/
theorem queryColumn_output (input : Input) (output : Output) :
    (queryColumn input output).2.2 = output.write (ControlSequence.statusReport 6).text := by
  rw [queryColumn, Output.write]
  rcases output.tryWrite (ControlSequence.statusReport 6).text with ⟨_ | _, output'⟩ <;> rfl

private theorem wrote_queryColumn (input : Input) (output : Output) :
    ∃ t, output.Wrote t (queryColumn input output).2.2 ∧ ∀ s : Screen, s.Shows t s := by
  refine ⟨_, ?_, fun s => s.shows_statusReport 6⟩
  rw [queryColumn_output]
  exact output.wrote_write _

/-- A terminal of some columns, if it answers at all, reports its cursor as it is: at the start of a
row first, and in the last column when it has been sent to the right. -/
def AnswersTruly (columns : Nat) (input : Input) (output : Output) : Prop :=
  match queryColumn input output with
  | (none, _, _) => True
  | (some start, input, output) =>
    start = 1 ∧ (queryColumn input
      (output.write (ControlSequence.cursorForward farRight).text)).1 = some columns

/-- The cursor is sent to the right, and back by as much as it can have got there. -/
theorem wrote_probeColumns (input : Input) (output : Output) :
    ∃ t, output.Wrote t (probeColumns input output).2.2 ∧ ∀ s : Screen, ∃ s', s.Shows t s' ∧
      (AnswersTruly s.columns input output → s.column = 0 → s' = s ∨ s' = s.moveTo s.row 0) := by
  obtain ⟨t₁, hwrote₁, hshows₁⟩ := wrote_queryColumn input output
  rw [probeColumns]
  unfold AnswersTruly
  generalize queryColumn input output = first at hwrote₁ ⊢
  obtain ⟨answer, input₁, output₁⟩ := first
  cases answer with
  | none => exact ⟨t₁, hwrote₁, fun s => ⟨s, hshows₁ s, fun _ _ => Or.inl rfl⟩⟩
  | some start =>
    have hright := hwrote₁.append
      (Output.wrote_write output₁ (ControlSequence.cursorForward farRight).text)
    obtain ⟨t₂, hwrote₂, hshows₂⟩ :=
      wrote_queryColumn input₁ (output₁.write (ControlSequence.cursorForward farRight).text)
    dsimp only
    generalize queryColumn input₁ _ = second at hwrote₂ ⊢
    obtain ⟨answer', input₂, output₂⟩ := second
    have hboth := hright.append hwrote₂
    have hmoved (s : Screen) : s.Shows (t₁ ++ (ControlSequence.cursorForward farRight).text ++ t₂)
        (s.moveTo s.row (s.column + farRight)) :=
      ((hshows₁ s).append (s.shows_cursorForward (by decide) (by decide))).append (hshows₂ _)
    have hstart (s : Screen) {column : Nat} (hzero : min column (s.columns - 1) = 0) :
        s.moveTo s.row column = s.moveTo s.row 0 := by
      rw [Screen.moveTo, Screen.moveTo, hzero, Nat.zero_min]
    cases answer' with
    | none => exact ⟨_, hboth, fun s => ⟨_, hmoved s, fun htrue => absurd htrue.2 (by simp)⟩⟩
    | some columns =>
      by_cases hback : start < columns
      · dsimp only
        rw [if_pos hback]
        refine ⟨_, hboth.append (Output.wrote_write _ _), fun s =>
          ⟨_, (hmoved s).append (Screen.shows_cursorBackward _ _), fun htrue hcolumn => ?_⟩⟩
        obtain ⟨rfl, hcolumns⟩ := htrue
        rw [Screen.moveTo_row, Screen.moveTo_moveTo]
        refine Or.inr (hstart s ?_)
        rw [Screen.moveTo_column, hcolumn, Option.some.inj hcolumns]
        simp only [farRight]
        omega
      · dsimp only
        rw [if_neg hback]
        refine ⟨_, hboth, fun s => ⟨_, hmoved s, fun htrue _ => Or.inr (hstart s ?_)⟩⟩
        obtain ⟨rfl, hcolumns⟩ := htrue
        rw [← Option.some.inj hcolumns, show columns - 1 = 0 by omega, Nat.min_zero]

theorem findColumns_of_known {settings : TerminalSettings} {input : Input} {output : Output}
    {columns : Nat} (h : (settings.fixedColumns <|> input.columns) = some columns) :
    findColumns settings input output = (columns, input, output) := by
  rw [findColumns, h]

/-- What is written to find the width is read to its end. A terminal whose width is known, or that
reports its cursor as it is, is left as it was but for moves of the cursor within the start of its
row. -/
theorem wrote_findColumns (settings : TerminalSettings) (input : Input) (output : Output) :
    ∃ t, output.Wrote t (findColumns settings input output).2.2 ∧ ∀ s : Screen, ∃ s',
      s.Shows t s' ∧ ((settings.fixedColumns <|> input.columns) ≠ none ∨
        AnswersTruly s.columns input output → s.column = 0 →
          s' = s ∨ s' = s.moveTo s.row 0) := by
  cases hknown : (settings.fixedColumns <|> input.columns) with
  | some columns =>
    rw [findColumns_of_known hknown]
    exact ⟨[], .nil output, fun s => ⟨s, .nil s, fun _ _ => Or.inl rfl⟩⟩
  | none =>
    obtain ⟨t, hwrote, hshows⟩ := wrote_probeColumns input output
    refine ⟨t, ?_, fun s => ?_⟩
    · rw [findColumns, hknown]
      exact hwrote
    · obtain ⟨s', hs', hstart⟩ := hshows s
      exact ⟨s', hs', fun h => hstart (h.resolve_left fun hne => hne rfl)⟩

end Typeline
