import Typeline.Proofs.Terminal.Written

/-!
# What finding the width depends on

A probe for the width of a terminal reads what the terminal reports and nothing behind it. So if the
same reports are in front of two inputs, and neither is read any further, the probe finds the same
width and writes the same, whatever has been typed behind the reports.

## Main definitions

* `sentBack` : the terminal after the cursor has been sent back from the last column.

## Main results

* `findColumns_of_reports` : the same width is found, and the same is written.
-/

namespace Typeline

variable (input : Input) (output : Output)

/-! ### What is left of the input -/

theorem readReport_cons (r : Reading) (queue : List Reading) (limit : Nat) :
    readReport { input with queue := r :: queue } (limit + 1) =
      match r with
      | .byte b =>
        if b = reportEnd then (some [b], { input with queue })
        else ((readReport { input with queue } limit).1.map (b :: ·),
          (readReport { input with queue } limit).2)
      | .silent _ => (none, { input with queue }) := by
  cases r <;> rfl

theorem readReport_suffix (queue : List Reading) (limit : Nat) :
    (readReport { input with queue } limit).2.queue <:+ queue := by
  induction limit generalizing queue with
  | zero => exact List.suffix_rfl
  | succ limit ih =>
    cases queue with
    | nil => exact List.suffix_rfl
    | cons r queue =>
      rw [readReport_cons]
      cases r with
      | silent s => exact List.suffix_cons _ queue
      | byte b =>
        dsimp only
        split
        · exact List.suffix_cons _ queue
        · exact (ih queue).trans (List.suffix_cons _ queue)

/-- A report takes a reading if there is one. -/
theorem eq_nil_of_suffix_readReport {queue : List Reading} {limit : Nat}
    (h : queue <:+ (readReport { input with queue } (limit + 1)).2.queue) : queue = [] := by
  cases queue with
  | nil => rfl
  | cons r queue =>
    have htail :
        (readReport { input with queue := r :: queue } (limit + 1)).2.queue <:+ queue := by
      rw [readReport_cons]
      cases r with
      | silent s => exact List.suffix_rfl
      | byte b =>
        dsimp only
        split
        · exact List.suffix_rfl
        · exact readReport_suffix input queue limit
    have hlength := (h.trans htail).length_le
    rw [List.length_cons] at hlength
    omega

private theorem queryColumn_suffix : (queryColumn input output).2.1.queue <:+ input.queue := by
  rw [queryColumn]
  rcases output.tryWrite (ControlSequence.statusReport 6).text with ⟨_ | _, output'⟩
  · exact List.suffix_rfl
  · exact readReport_suffix input input.queue reportLimit

/-- A terminal whose cursor is sent back to where it was, if the last column is known and is not
that. -/
def sentBack (output : Output) (start : Nat) : Option Nat → Output
  | none => output
  | some columns =>
    if start < columns then output.write (ControlSequence.cursorBackward (columns - start)).text
    else output

section Answers

variable {input output} {input₁ input₂ : Input} {output₁ output₂ : Output}

theorem probeColumns_of_no_answer (h : queryColumn input output = (none, input₁, output₁)) :
    probeColumns input output = (none, input₁, output₁) := by
  rw [probeColumns, h]

/-- A probe whose first question is answered asks again. -/
theorem probeColumns_of_answer {start : Nat} {answer : Option Nat}
    (h : queryColumn input output = (some start, input₁, output₁))
    (hnext : queryColumn input₁ (output₁.write (ControlSequence.cursorForward farRight).text) =
      (answer, input₂, output₂)) :
    probeColumns input output = (answer, input₂, sentBack output₂ start answer) := by
  rw [probeColumns, h]
  dsimp only
  rw [hnext]
  cases answer <;> rfl

end Answers

private theorem probeColumns_suffix :
    (probeColumns input output).2.1.queue <:+ (queryColumn input output).2.1.queue := by
  rcases hfirst : queryColumn input output with ⟨_ | start, input₁, output₁⟩
  · simp only [probeColumns_of_no_answer hfirst, List.suffix_rfl]
  · rw [probeColumns_of_answer hfirst rfl]
    exact queryColumn_suffix input₁ _

/-! ### Inputs that begin alike -/

section Alike

variable {input output} {front rest rest' : List Reading}

/-- A report that is read up to the same place of both inputs is the same. -/
theorem readReport_alike {limit : Nat}
    (hrest : rest <:+ (readReport { input with queue := front ++ rest } limit).2.queue)
    (hrest' : rest' <:+ (readReport { input with queue := front ++ rest' } limit).2.queue) :
    ∃ report left,
      readReport { input with queue := front ++ rest } limit =
        (report, { input with queue := left ++ rest }) ∧
      readReport { input with queue := front ++ rest' } limit =
        (report, { input with queue := left ++ rest' }) := by
  induction limit generalizing front with
  | zero => exact ⟨some [], front, rfl, rfl⟩
  | succ limit ih =>
    cases front with
    | nil =>
      -- The shared readings are used up, so neither report may take another one.
      obtain rfl := eq_nil_of_suffix_readReport input hrest
      obtain rfl := eq_nil_of_suffix_readReport input hrest'
      exact ⟨none, [], rfl, rfl⟩
    | cons r front =>
      simp only [List.cons_append, readReport_cons] at hrest hrest' ⊢
      cases r with
      | silent s => exact ⟨none, front, rfl, rfl⟩
      | byte b =>
        dsimp only at hrest hrest' ⊢
        by_cases hend : b = reportEnd
        · rw [if_pos hend, if_pos hend]
          exact ⟨some [b], front, rfl, rfl⟩
        · rw [if_neg hend] at hrest hrest' ⊢
          rw [if_neg hend]
          obtain ⟨report, left, hreport, hreport'⟩ := ih hrest hrest'
          rw [hreport, hreport']
          exact ⟨report.map (b :: ·), left, rfl, rfl⟩

/-- So is a column, and what is written to ask for it does not depend on the input. -/
theorem queryColumn_alike
    (hrest : rest <:+ (queryColumn { input with queue := front ++ rest } output).2.1.queue)
    (hrest' : rest' <:+ (queryColumn { input with queue := front ++ rest' } output).2.1.queue) :
    ∃ answer output' left,
      queryColumn { input with queue := front ++ rest } output =
        (answer, { input with queue := left ++ rest }, output') ∧
      queryColumn { input with queue := front ++ rest' } output =
        (answer, { input with queue := left ++ rest' }, output') := by
  rw [queryColumn] at hrest ⊢
  rw [queryColumn] at hrest' ⊢
  rcases hwrite : output.tryWrite (ControlSequence.statusReport 6).text with ⟨_ | _, output'⟩
  · exact ⟨none, output', front, rfl, rfl⟩
  · rw [hwrite] at hrest hrest'
    obtain ⟨report, left, hreport, hreport'⟩ := readReport_alike hrest hrest'
    dsimp only
    rw [hreport, hreport']
    exact ⟨(report.bind parseCursorReport).map Prod.snd, output', left, rfl, rfl⟩

private theorem probeColumns_alike
    (hrest : rest <:+ (probeColumns { input with queue := front ++ rest } output).2.1.queue)
    (hrest' : rest' <:+ (probeColumns { input with queue := front ++ rest' } output).2.1.queue) :
    (probeColumns { input with queue := front ++ rest' } output).1 =
        (probeColumns { input with queue := front ++ rest } output).1 ∧
      (probeColumns { input with queue := front ++ rest' } output).2.2 =
        (probeColumns { input with queue := front ++ rest } output).2.2 := by
  obtain ⟨answer, output₁, left, hfirst, hfirst'⟩ := queryColumn_alike
    (hrest.trans (probeColumns_suffix _ output)) (hrest'.trans (probeColumns_suffix _ output))
  cases answer with
  | none =>
    rw [probeColumns_of_no_answer hfirst, probeColumns_of_no_answer hfirst']
    exact ⟨rfl, rfl⟩
  | some start =>
    rw [probeColumns_of_answer hfirst rfl] at hrest
    rw [probeColumns_of_answer hfirst' rfl] at hrest'
    obtain ⟨columns, output₂, left₂, hsecond, hsecond'⟩ := queryColumn_alike hrest hrest'
    rw [probeColumns_of_answer hfirst hsecond, probeColumns_of_answer hfirst' hsecond']
    exact ⟨rfl, rfl⟩

variable (settings : TerminalSettings) (input output)

/-- **The same reports, the same width.** -/
theorem findColumns_of_reports
    (hrest : rest <:+ (findColumns settings { input with queue := front ++ rest } output).2.1.queue)
    (hrest' : rest' <:+
      (findColumns settings { input with queue := front ++ rest' } output).2.1.queue) :
    (findColumns settings { input with queue := front ++ rest' } output).1 =
        (findColumns settings { input with queue := front ++ rest } output).1 ∧
      (findColumns settings { input with queue := front ++ rest' } output).2.2 =
        (findColumns settings { input with queue := front ++ rest } output).2.2 := by
  cases hknown : settings.fixedColumns <|> input.columns with
  | some columns =>
    have hfound (queue : List Reading) :
        findColumns settings { input with queue } output =
          (columns, { input with queue }, output) :=
      findColumns_of_known hknown
    rw [hfound, hfound]
    exact ⟨rfl, rfl⟩
  | none =>
    have hfound (queue : List Reading) : findColumns settings { input with queue } output =
        ((probeColumns { input with queue } output).1.getD defaultColumns,
          (probeColumns { input with queue } output).2) := by
      rw [findColumns, show (settings.fixedColumns <|> Input.columns { input with queue }) = none
        from hknown]
    rw [hfound] at hrest hrest' ⊢
    obtain ⟨hcolumns, houtput⟩ := probeColumns_alike hrest hrest'
    rw [hfound, hcolumns, houtput]
    exact ⟨rfl, rfl⟩

end Alike

end Typeline
