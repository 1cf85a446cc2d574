import Typeline.Proofs.Edit.RowWindow
import Typeline.Proofs.Text.Sums

/-!
# The count of the clusters in mask mode

In mask mode a line takes one column for each cluster that is counted in it. The cursor moves over
the clusters one by one, and a drawing that leaves clusters out takes off one column for each. All
of these agree on the number of clusters, except for the count itself, which in a text of ASCII
characters takes the carriage return and the line feed of a line end apart.

## Main results

* `Line.after_stepsRight_iff`, `Line.before_stepsLeft_iff` : how many steps lead to the ends of a
  line.
* `Line.masked_count_eq_steps_add` : the count, the steps of the cursor and the columns of the
  clusters.
-/

namespace Typeline

namespace Line

/-! ### Steps of the cursor -/

theorem edited_replicate_succ (l : Line) (n : Nat) (op : Operation) :
    l.edited (List.replicate (n + 1) op) = (op.apply l).edited (List.replicate n op) := rfl

private theorem apply_right_of_atEnd {l : Line} (h : l.after = []) :
    Operation.right.apply l = l := by
  simp [Operation.apply, Operation.result?, right, h]

private theorem apply_left_of_atStart {l : Line} (h : l.before = []) :
    Operation.left.apply l = l := by
  simp [Operation.apply, Operation.result?, left, h]

/-- Steps to the right lead to the end if they are at least as many as the clusters behind the
cursor. -/
theorem after_stepsRight_iff (n : Nat) (l : Line) :
    (l.edited (List.replicate n .right)).after = [] ↔
      (clustersAfter l.before l.after).length ≤ n := by
  induction n generalizing l with
  | zero =>
    change l.after = [] ↔ _
    rw [Nat.le_zero, List.length_eq_zero_iff]
    cases hafter : l.after with
    | nil => exact iff_of_true rfl rfl
    | cons c after => exact iff_of_false (List.cons_ne_nil _ _) (clustersAfter_ne_nil _ c after)
  | succ n ih =>
    rw [edited_replicate_succ, ih]
    cases hafter : l.after with
    | nil =>
      rw [apply_right_of_atEnd hafter, hafter]
      exact iff_of_true (Nat.zero_le _) (Nat.zero_le _)
    | cons c after =>
      obtain ⟨first, -, hclusters⟩ := clustersAfter_eq_cons l.before c after
      have hstep : Operation.right.apply l =
          { l with
            before := (forward l.before (c :: after)).1
            after := (forward l.before (c :: after)).2 } := by
        simp [Operation.apply, Operation.result?, right, hafter]
      rw [hstep, hclusters, List.length_cons, Nat.succ_le_succ_iff]

/-- Steps to the left lead to the start if they are at least as many as the clusters of the text
before the cursor. -/
theorem before_stepsLeft_iff (n : Nat) (l : Line) :
    (l.edited (List.replicate n .left)).before = [] ↔ (clusters l.textBefore).length ≤ n := by
  induction n generalizing l with
  | zero =>
    change l.before = [] ↔ _
    rw [Nat.le_zero, List.length_eq_zero_iff, textBefore]
    constructor
    · intro h
      rw [h]
      rfl
    · intro h
      rw [← List.reverse_eq_nil_iff, ← flatten_clusters l.before.reverse, h]
      rfl
  | succ n ih =>
    rw [edited_replicate_succ, ih]
    by_cases hbefore : l.before = []
    · rw [apply_left_of_atStart hbefore, textBefore, hbefore]
      exact iff_of_true (Nat.zero_le _) (Nat.zero_le _)
    · have hstep : Operation.left.apply l =
          { l with
            before := (backward l.before l.after).1
            after := (backward l.before l.after).2 } := by
        simp [Operation.apply, Operation.result?, left, hbefore]
      rw [hstep, textBefore, textBefore, clusters_before hbefore l.after, List.length_append,
        List.length_singleton, Nat.succ_le_succ_iff]

private theorem edited_home (l : Line) :
    l.edited [.home] = { l with before := [], after := l.text } := by
  obtain ⟨before, after, capacity⟩ := l
  cases before <;> rfl

private theorem edited_moveEnd (l : Line) :
    l.edited [.moveEnd] = { l with before := l.text.reverse, after := [] } := by
  obtain ⟨before, after, capacity⟩ := l
  cases after with
  | nil => simp [edited, Operation.apply, Operation.result?, moveEnd, text]
  | cons c after => rfl

/-! ### The count -/

/-- The number of the clusters of a line is the least number of steps from its start to its end. -/
theorem isLeast_stepsRight (l : Line) :
    IsLeast {n | (l.edited (.home :: List.replicate n .right)).atEnd = true}
      (clusters l.text).length := by
  have hsteps : ∀ n, (l.edited (.home :: List.replicate n .right)).atEnd = true ↔
      (clusters l.text).length ≤ n := by
    intro n
    rw [← List.singleton_append, edited_append, edited_home, atEnd, List.isEmpty_iff,
      after_stepsRight_iff]
    rfl
  exact ⟨(hsteps _).mpr (Nat.le_refl _), fun n h => (hsteps n).mp h⟩

/-- The number of the clusters of a line is the least number of steps from its end to its start. -/
theorem isLeast_stepsLeft (l : Line) :
    IsLeast {n | (l.edited (.moveEnd :: List.replicate n .left)).before = []}
      (clusters l.text).length := by
  have hsteps : ∀ n, (l.edited (.moveEnd :: List.replicate n .left)).before = [] ↔
      (clusters l.text).length ≤ n := by
    intro n
    rw [← List.singleton_append, edited_append, edited_moveEnd, before_stepsLeft_iff, textBefore,
      List.reverse_reverse]
  exact ⟨(hsteps _).mpr (Nat.le_refl _), fun n h => (hsteps n).mp h⟩

/-- **Clusters in mask mode.** The steps of the cursor in both directions and the columns that are
taken off for clusters agree on their number. The columns of the line, which are counted, are more
by the line ends of a text of ASCII characters, and by nothing else. -/
theorem masked_count_eq_steps_add (l : Line) :
    contentWidth true l.text = clusterCount l.text ∧
      clusterCount l.text =
        (clusters l.text).length + (if isAscii l.text then lineEnds l.text else 0) ∧
      (clusterCount l.text = (clusters l.text).length ↔
        (isAscii l.text = true → ¬['\r', '\n'] <:+: l.text)) ∧
      IsLeast {n | (l.edited (.home :: List.replicate n .right)).atEnd = true}
        (clusters l.text).length ∧
      IsLeast {n | (l.edited (.moveEnd :: List.replicate n .left)).before = []}
        (clusters l.text).length ∧
      ∀ v : LineView,
        columnsOf { v with line := l, masked := true }.shownWidth (clusters l.text) =
            (clusters l.text).length ∧
          { v with line := l, masked := true }.surplus =
            if isAscii l.text then lineEnds l.text else 0 := by
  have hcount := clusterCount_eq_add l.text
  refine ⟨rfl, hcount, ?_, isLeast_stepsRight l, isLeast_stepsLeft l, fun v => ?_⟩
  · rw [hcount, Nat.add_eq_left, ← lineEnds_eq_zero_iff]
    split
    · next h => simp [h]
    · next h => simp [h]
  · have hcolumns := LineView.columnsOf_of_masked (v := { v with line := l, masked := true }) rfl
      (clusters l.text)
    refine ⟨hcolumns, ?_⟩
    rw [LineView.surplus]
    change clusterCount l.text - _ = _
    rw [hcolumns, hcount, Nat.add_sub_cancel_left]

end Line

/-- A line end is one cluster and is counted as two. -/
theorem exists_clusterCount_ne : ¬∀ t : Text, clusterCount t = (clusters t).length := by
  intro h
  exact absurd (h ['\r', '\n']) (by decide +kernel)

end Typeline
