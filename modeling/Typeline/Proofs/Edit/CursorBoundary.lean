import Mathlib.Data.List.Induction
import Typeline.Edit.Line
import Typeline.Proofs.Text.Segmentation

/-!
# The cursor and the borders of clusters

The operations on a line insert, move over and remove whole clusters, and most of them leave the
cursor between two clusters whatever the line was before. The exceptions are the three that remove
a piece at the cursor: what stands on the two sides of the piece may join into one cluster, as two
halves of a flag do when the letter between them is deleted, and the cursor is then inside of it.
It stays there until an operation changes the line again.

## Main definitions

* `Line.OnBoundary` : the cursor stands between two clusters.
* `Line.Operation`, `Line.edited` : the operations on a line, and a line after some of them.
* `Line.Operation.removal?` : what stands on the two sides of a piece that is removed.

## Main results

* `Line.onBoundary_apply_iff` : the cursor after one operation.
* `Line.not_onBoundary_edited_iff` : when the cursor is inside of a cluster after any operations.
-/

namespace Typeline

namespace Line

/-- The cursor stands between two clusters. -/
def OnBoundary (l : Line) : Prop := isBoundary l.before l.after = true

instance (l : Line) : Decidable l.OnBoundary := inferInstanceAs (Decidable (_ = true))

/-- An operation on a line. -/
inductive Operation where
  /-- Insert a text. -/
  | insert (chunk : Text)
  /-- Move to the left over a cluster. -/
  | left
  /-- Move to the right over a cluster. -/
  | right
  /-- Move to the start. -/
  | home
  /-- Move to the end. -/
  | moveEnd
  /-- Delete the cluster under the cursor. -/
  | delete
  /-- Delete the cluster before the cursor. -/
  | backspace
  /-- Delete the word before the cursor. -/
  | deleteWord
  /-- Delete everything behind the cursor. -/
  | killToEnd
  /-- Delete everything. -/
  | clear
  /-- Swap the clusters on the two sides of the cursor. -/
  | transpose
  /-- Replace the whole line. -/
  | setText (t : Text)
  /-- Take the text out. -/
  | take
  deriving DecidableEq, Repr

namespace Operation

/-- The line after an operation, if there is anything to do. -/
def result? : Operation → Line → Option Line
  | .insert chunk, l => l.insert chunk
  | .left, l => l.left
  | .right, l => l.right
  | .home, l => l.home
  | .moveEnd, l => l.moveEnd
  | .delete, l => l.delete
  | .backspace, l => l.backspace
  | .deleteWord, l => l.deleteWord
  | .killToEnd, l => l.killToEnd
  | .clear, l => l.clear
  | .transpose, l => l.transpose
  | .setText t, l => some (l.setText t)
  | .take, l => some l.take.2

/-- The line after an operation. -/
def apply (op : Operation) (l : Line) : Line := (op.result? l).getD l

/-- The characters on the two sides of the piece that an operation removes at the cursor, if it
removes one. -/
def removal? : Operation → Line → Option (List Char × List Char)
  | .delete, l => if l.after.isEmpty then none else some (l.before, (forward l.before l.after).2)
  | .backspace, l =>
    if l.before.isEmpty then none else some ((backward l.before l.after).1, l.after)
  | .deleteWord, l => if l.before.isEmpty then none else some (l.beforeWord, l.after)
  | _, _ => none

end Operation

/-- A line after some operations. -/
def edited (l : Line) (ops : List Operation) : Line := ops.foldl (fun l op => op.apply l) l

theorem edited_concat (l : Line) (ops : List Operation) (op : Operation) :
    l.edited (ops ++ [op]) = op.apply (l.edited ops) := by
  rw [edited, List.foldl_append]
  rfl

theorem edited_append (l : Line) (ops ops' : List Operation) :
    l.edited (ops ++ ops') = (l.edited ops).edited ops' :=
  List.foldl_append

/-- Operations that find nothing to do leave a line as it is. -/
theorem edited_of_idle {l : Line} {ops : List Operation} (h : ∀ op ∈ ops, op.result? l = none) :
    l.edited ops = l := by
  induction ops with
  | nil => rfl
  | cons op ops ih =>
    have hop : op.apply l = l := by
      rw [Operation.apply, h op List.mem_cons_self]
      rfl
    change (op.apply l).edited ops = l
    rw [hop]
    exact ih fun op hmem => h op (List.mem_cons_of_mem _ hmem)

/-! ### One operation -/

private theorem isBoundary_settle (before after : List Char) :
    isBoundary (settle before after).1 (settle before after).2 = true := by
  induction after generalizing before with
  | nil => exact isBoundary_nil_right before
  | cons c after ih =>
    rw [settle]
    split
    · assumption
    · exact ih (c :: before)

private theorem onBoundary_settled (l : Line) : l.settled.OnBoundary :=
  isBoundary_settle l.before l.after

/-- What an operation answers when it is not refused. -/
theorem eq_of_not_refused {α : Type} {p : Prop} [Decidable p] {a b : α}
    (h : (if p then none else some a) = some b) : a = b :=
  Option.some.inj (Option.ite_none_left_eq_some.mp h).2

/-- At the end of a line, what is inserted becomes its end. -/
theorem insert_of_atEnd {l l' : Line} {chunk : Text} (h : l.insert chunk = some l')
    (hend : l.atEnd = true) : l'.text = l.text ++ chunk ∧ l'.after = [] := by
  rw [atEnd, List.isEmpty_iff] at hend
  rw [← eq_of_not_refused h, settled, text, text, hend]
  simp [settle]

/-- An operation that changes a line and removes nothing at the cursor leaves the cursor between
two clusters. -/
theorem Operation.onBoundary_of_removal?_eq_none {op : Operation} {l l' : Line}
    (h : op.result? l = some l') (hremoval : op.removal? l = none) : l'.OnBoundary := by
  cases op with
  | insert chunk =>
    rw [← eq_of_not_refused h]
    exact onBoundary_settled _
  | left =>
    rw [← eq_of_not_refused h]
    exact isBoundary_backward l.before l.after
  | right =>
    rw [← eq_of_not_refused h]
    exact isBoundary_forward l.before l.after
  | home | clear =>
    rw [← eq_of_not_refused h]
    exact isBoundary_nil_left _
  | moveEnd | killToEnd =>
    rw [← eq_of_not_refused h]
    exact isBoundary_nil_right _
  | delete | backspace | deleteWord =>
    -- These are refused exactly when they have nothing to remove.
    obtain ⟨hfull, -⟩ := Option.ite_none_left_eq_some.mp h
    rw [removal?, if_neg hfull] at hremoval
    exact absurd hremoval (by simp)
  | transpose =>
    rw [← eq_of_not_refused h]
    exact onBoundary_settled _
  | setText t =>
    rw [← Option.some.inj h]
    exact isBoundary_nil_right _
  | take =>
    rw [← Option.some.inj h]
    exact isBoundary_nil_left _

/-- A removal leaves the cursor between the two sides of the piece. -/
theorem Operation.apply_of_removal? {op : Operation} {l : Line} {before after : List Char}
    (h : op.removal? l = some (before, after)) : op.apply l = { l with before, after } := by
  cases op with
  | delete | backspace | deleteWord =>
    obtain ⟨hfull, hsides⟩ := Option.ite_none_left_eq_some.mp h
    obtain ⟨rfl, rfl⟩ := Prod.mk.inj (Option.some.inj hsides)
    simp only [apply, result?, Line.delete, Line.backspace, Line.deleteWord, if_neg hfull]
    rfl
  | _ => exact absurd h (by simp [removal?])

/-- **The cursor after one operation.** It stands between two clusters if the sides of what was
removed are apart, and if nothing changed it has to have stood there before. -/
theorem onBoundary_apply_iff (op : Operation) (l : Line) :
    (op.apply l).OnBoundary ↔
      (∀ before after, op.removal? l = some (before, after) → isBoundary before after = true) ∧
        (op.result? l = none → l.OnBoundary) := by
  cases hremoval : op.removal? l with
  | some sides =>
    obtain ⟨before, after⟩ := sides
    have happly := Operation.apply_of_removal? hremoval
    rw [happly]
    refine ⟨fun h => ⟨?_, fun hnone => ?_⟩, fun h => h.1 before after rfl⟩
    · rintro before' after' heq
      obtain ⟨rfl, rfl⟩ := Prod.mk.inj (Option.some.inj heq)
      exact h
    · have hidle : op.apply l = l := by rw [Operation.apply, hnone]; rfl
      rw [← hidle, happly]
      exact h
  | none =>
    refine ⟨fun h => ⟨fun _ _ heq => absurd heq (by simp), fun hnone => ?_⟩, fun h => ?_⟩
    · rwa [Operation.apply, hnone] at h
    · cases happly : op.result? l with
      | none => rw [Operation.apply, happly]; exact h.2 happly
      | some l' =>
        rw [Operation.apply, happly]
        exact Operation.onBoundary_of_removal?_eq_none happly hremoval

/-! ### Any operations -/

/-- **The cursor inside of a cluster.** After any operations on an empty line the cursor is inside
of a cluster if and only if one of them removed a piece whose two sides join, and none after it
found anything to do. -/
theorem not_onBoundary_edited_iff (capacity : Nat) (ops : List Operation) :
    ¬((empty capacity).edited ops).OnBoundary ↔
      ∃ earlier op later before after, ops = earlier ++ op :: later ∧
        op.removal? ((empty capacity).edited earlier) = some (before, after) ∧
        isBoundary before after = false ∧
        ∀ op' ∈ later, op'.result? ((empty capacity).edited (earlier ++ [op])) = none := by
  constructor
  · induction ops using List.reverseRecOn with
    | nil => exact fun h => absurd (isBoundary_nil_left []) h
    | append_singleton ops op ih =>
      intro h
      rw [edited_concat, onBoundary_apply_iff, not_and_or] at h
      rcases h with h | h
      · simp only [not_forall, Bool.not_eq_true] at h
        obtain ⟨before, after, hremoval, hjoin⟩ := h
        exact ⟨ops, op, [], before, after, rfl, hremoval, hjoin, by simp⟩
      · rw [Classical.not_imp] at h
        obtain ⟨earlier, op', later, before, after, rfl, hremoval, hjoin, hidle⟩ := ih h.2
        refine ⟨earlier, op', later ++ [op], before, after, by simp, hremoval, hjoin, ?_⟩
        intro op'' hmem
        rcases List.mem_append.mp hmem with hmem | hmem
        · exact hidle op'' hmem
        · have hsame : (empty capacity).edited (earlier ++ op' :: later) =
              (empty capacity).edited (earlier ++ [op']) := by
            rw [List.append_cons, edited_append, edited_of_idle hidle]
          rw [List.mem_singleton.mp hmem, ← hsame]
          exact h.1
  · rintro ⟨earlier, op, later, before, after, rfl, hremoval, hjoin, hidle⟩ h
    rw [List.append_cons, edited_append, edited_of_idle hidle, edited_concat,
      Operation.apply_of_removal? hremoval] at h
    exact absurd h (by simp [OnBoundary, hjoin])

/-- Deleting a letter between two halves of flags leaves the cursor inside of a flag. -/
theorem exists_not_onBoundary : ¬∀ (capacity : Nat) (ops : List Operation),
    ((empty capacity).edited ops).OnBoundary := by
  intro h
  have hflag := h defaultCapacity
    [.insert ['🇦', 'x', '🇧'], .left, .backspace]
  exact absurd hflag (by decide +kernel)

end Line

end Typeline
