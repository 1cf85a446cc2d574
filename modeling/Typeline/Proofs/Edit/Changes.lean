import Typeline.Proofs.Edit.Capacity
import Typeline.Proofs.Edit.CursorOffset

/-!
# Operations that change a line

Apart from replacing the line and taking its text out, an operation tells whether it has changed
anything: what is shown of the line has to be drawn again only then. It tells so by whether it is
refused, and this is true to what happens. An operation that is not refused changes the text or the
cursor, since whatever it moves over, inserts or removes takes at least one byte; even two clusters
that are equal move the cursor when they are swapped.

## Main definitions

* `Line.Operation.tells` : whether an operation tells if it has changed anything.

## Main results

* `Line.Operation.isSome_result?_iff` : an operation is not refused if and only if it changes
  something.
-/

namespace Typeline

namespace Line

variable {l l' : Line}

/-- Whether an operation tells if it has changed anything. -/
def Operation.tells : Operation → Bool
  | .setText _ | .take => false
  | _ => true

/-- A walk over a word passes over a cluster whose last character satisfies its test. -/
theorem byteLength_backwardWhile_lt {p : Char → Bool} {c : Char} (hc : p c = true)
    (before after : List Char) :
    byteLength (backwardWhile p false (c :: before) after).1 < byteLength (c :: before) := by
  rw [backwardWhile_cons, if_pos hc]
  exact Nat.lt_of_le_of_lt (byteLength_backwardWhile_le _ _ _ _)
    (byteLength_backward_lt (List.cons_ne_nil c before) after)

/-- Before the cursor there is a space or another character, and so one of the two walks over a word
passes over something. -/
theorem byteLength_beforeWord_lt (h : l.before ≠ []) :
    byteLength l.beforeWord < byteLength l.before := by
  obtain ⟨c, before, hbefore⟩ := List.exists_cons_of_ne_nil h
  have hword : l.beforeWord =
      (backwardWhile (· != ' ') false (backwardWhile (· == ' ') false (c :: before) l.after).1
        (backwardWhile (· == ' ') false (c :: before) l.after).2).1 := by
    rw [beforeWord, hbefore]
  rw [hword, hbefore]
  by_cases hc : (c == ' ') = true
  · refine Nat.lt_of_le_of_lt (byteLength_backwardWhile_le _ _ _ _) ?_
    exact byteLength_backwardWhile_lt (p := (· == ' ')) hc before l.after
  · rw [backwardWhile_cons, if_neg hc]
    exact byteLength_backwardWhile_lt (p := (· != ' ')) (bne_iff_ne.mpr (by simpa using hc)) _ _

private theorem cursor_transpose (h : l.transpose = some l') : l.cursor < l'.cursor := by
  obtain ⟨hfull, -⟩ := Option.ite_none_left_eq_some.mp h
  simp only [Bool.or_eq_true, List.isEmpty_iff, not_or] at hfull
  rw [transpose_eq hfull.1 hfull.2] at h
  have hbytes := congrArg byteLength (partBefore_spec l.before l.after).1
  have hpart := byteLength_pos (partAfter_ne_nil l.before hfull.2)
  have hsettled := (isLeast_settled { l with
    before := (partBefore l.before l.after).reverse ++ (partAfter l.before l.after).reverse ++
      (backward l.before l.after).1
    after := (forward l.before l.after).2 }).1.1
  rw [Option.some.inj h] at hsettled
  simp only [cursor, byteLength_append, byteLength_reverse] at hbytes hsettled ⊢
  omega

/-- An operation that is not refused has something to work on. -/
theorem ne_nil_of_not_refused {side : List Char} {a b : Line}
    (h : (if side.isEmpty then none else some a) = some b) : side ≠ [] :=
  mt List.isEmpty_iff.mpr (Option.ite_none_left_eq_some.mp h).1

private theorem text_ne_of_length_ne (h : l'.length ≠ l.length) : l'.text ≠ l.text := by
  intro htext
  rw [← byteLength_text, ← byteLength_text, htext] at h
  exact h rfl

/-- **An operation that is not refused** changes the text or the cursor. -/
theorem Operation.ne_of_result? {op : Operation} (htells : op.tells = true)
    (h : op.result? l = some l') : l'.text ≠ l.text ∨ l'.cursor ≠ l.cursor := by
  cases op with
  | insert chunk =>
    have hpos := byteLength_pos (chunk_ne_nil h)
    have hlonger : l'.length = byteLength chunk + l.length := by
      rw [← eq_of_not_refused h, length_settled, length, length, byteLength_append,
        byteLength_reverse, Nat.add_assoc]
    exact Or.inl (text_ne_of_length_ne (by omega))
  | left =>
    have hpassed := byteLength_backward_lt (ne_nil_of_not_refused h) l.after
    rw [← eq_of_not_refused h]
    exact Or.inr (Nat.ne_of_lt hpassed)
  | right =>
    have hbytes := byteLength_forward l.before l.after
    have hpassed := byteLength_forward_lt l.before (ne_nil_of_not_refused h)
    rw [← eq_of_not_refused h]
    refine Or.inr (Nat.ne_of_gt ?_)
    change byteLength l.before < byteLength (forward l.before l.after).1
    omega
  | home =>
    have hpos := byteLength_pos (ne_nil_of_not_refused h)
    rw [← eq_of_not_refused h]
    exact Or.inr (Nat.ne_of_lt hpos)
  | moveEnd =>
    have hpos := byteLength_pos (ne_nil_of_not_refused h)
    rw [← eq_of_not_refused h]
    refine Or.inr (Nat.ne_of_gt ?_)
    change byteLength l.before < byteLength l.text.reverse
    rw [byteLength_reverse, byteLength_text, length]
    omega
  | delete =>
    have hpassed := byteLength_forward_lt l.before (ne_nil_of_not_refused h)
    rw [← eq_of_not_refused h]
    exact Or.inl (text_ne_of_length_ne (Nat.ne_of_lt (Nat.add_lt_add_left hpassed _)))
  | backspace =>
    have hpassed := byteLength_backward_lt (ne_nil_of_not_refused h) l.after
    rw [← eq_of_not_refused h]
    exact Or.inl (text_ne_of_length_ne (Nat.ne_of_lt (Nat.add_lt_add_right hpassed _)))
  | deleteWord =>
    have hpassed := byteLength_beforeWord_lt (ne_nil_of_not_refused h)
    rw [← eq_of_not_refused h]
    exact Or.inl (text_ne_of_length_ne (Nat.ne_of_lt (Nat.add_lt_add_right hpassed _)))
  | killToEnd =>
    have hpos := byteLength_pos (ne_nil_of_not_refused h)
    rw [← eq_of_not_refused h]
    exact Or.inl (text_ne_of_length_ne (Nat.ne_of_lt (Nat.add_lt_add_left hpos _)))
  | clear =>
    obtain ⟨hfull, -⟩ := Option.ite_none_left_eq_some.mp h
    rw [← eq_of_not_refused h]
    refine Or.inl fun hnil => hfull ?_
    obtain ⟨hbefore, hafter⟩ := List.append_eq_nil_iff.mp hnil.symm
    rw [isEmpty, List.reverse_eq_nil_iff.mp hbefore, hafter]
    rfl
  | transpose => exact Or.inr (Nat.ne_of_gt (cursor_transpose h))
  | setText t => exact absurd htells Bool.false_ne_true
  | take => exact absurd htells Bool.false_ne_true

/-- **Operations that change a line.** An operation is not refused if and only if it changes the
text or the cursor. -/
theorem Operation.isSome_result?_iff {op : Operation} (htells : op.tells = true) (l : Line) :
    (op.result? l).isSome = true ↔
      (op.apply l).text ≠ l.text ∨ (op.apply l).cursor ≠ l.cursor := by
  rw [apply]
  cases hresult : op.result? l with
  | none => exact iff_of_false Bool.false_ne_true (by simp)
  | some l' => exact iff_of_true rfl (ne_of_result? htells hresult)

end Line

end Typeline
