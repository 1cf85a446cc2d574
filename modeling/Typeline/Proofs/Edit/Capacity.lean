import Typeline.Proofs.Edit.CursorBoundary

/-!
# Lines within their capacity

No operation gives a line more bytes than its capacity: what is typed is refused if it does not fit,
a text that replaces the line is cut, and everything else moves or removes what is there. A text
that fits is not cut. So a line that is kept somewhere as a text comes back as it was, while a text
from elsewhere may come back shorter.

## Main definitions

* `Line.Fits` : a line takes no more bytes than its capacity.
* `Line.cut` : what is left of a text when it becomes a line.

## Main results

* `Line.fits_edited` : operations keep a line within its capacity.
* `Line.cut_of_le` : a text that fits is not cut.
-/

namespace Typeline

namespace Line

/-- A line takes no more bytes than its capacity. -/
def Fits (l : Line) : Prop := l.length ≤ l.capacity

instance (l : Line) : Decidable l.Fits := inferInstanceAs (Decidable (_ ≤ _))

theorem fits_empty (capacity : Nat) : (empty capacity).Fits := Nat.zero_le capacity

/-! ### Replacing the line -/

/-- What is left of a text when it becomes a line of some capacity. -/
def cut (capacity : Nat) (t : Text) : Text := ((empty capacity).setText t).text

theorem text_setText (l : Line) (t : Text) : (l.setText t).text = cut l.capacity t := rfl

theorem setText_eq_cut (l : Line) (t : Text) :
    l.setText t = ⟨(cut l.capacity t).reverse, [], l.capacity⟩ := by
  simp [cut, text, setText, empty]

/-- The walk over a text that fits goes to its end. -/
theorem longestFit_of_le {room : Nat} {t : Text} (h : byteLength t ≤ room) (ht : t ≠ [])
    (kept before : List Char) : longestFit room kept before t = t.reverse ++ before := by
  induction t generalizing room kept before with
  | nil => exact absurd rfl ht
  | cons c t ih =>
    rw [byteLength_cons] at h
    rw [longestFit, if_pos (by omega)]
    cases t with
    | nil => simp [longestFit]
    | cons d t =>
      rw [ih (by omega) (List.cons_ne_nil d t), @List.reverse_cons _ c, List.append_assoc]
      rfl

/-- The walk keeps within the room that there is. -/
theorem byteLength_longestFit_le {limit room : Nat} {kept before : List Char}
    (hkept : byteLength kept ≤ limit) (hroom : byteLength before + room ≤ limit) (t : Text) :
    byteLength (longestFit room kept before t) ≤ limit := by
  induction t generalizing room kept before with
  | nil => exact hkept
  | cons c t ih =>
    rw [longestFit]
    split
    · next hc =>
      have hbefore : byteLength (c :: before) + (room - c.utf8Size) ≤ limit := by
        rw [byteLength_cons]
        omega
      refine ih ?_ hbefore
      split
      · omega
      · exact hkept
    · exact hkept

theorem cut_of_le {capacity : Nat} {t : Text} (h : byteLength t ≤ capacity) :
    cut capacity t = t := by
  by_cases ht : t = []
  · rw [ht]
    rfl
  · rw [cut, setText, text, List.append_nil, show (empty capacity).capacity = capacity from rfl,
      longestFit_of_le h ht, List.append_nil, List.reverse_reverse]

theorem byteLength_cut_le (capacity : Nat) (t : Text) : byteLength (cut capacity t) ≤ capacity := by
  rw [cut, byteLength_text, length]
  exact byteLength_longestFit_le (Nat.zero_le capacity) (by simp [empty]) t

theorem Fits.byteLength_text_le {l : Line} (h : l.Fits) : byteLength l.text ≤ l.capacity := by
  rwa [byteLength_text]

/-- A line that is replaced by its own text keeps it. -/
theorem Fits.cut_text {l : Line} (h : l.Fits) : cut l.capacity l.text = l.text :=
  cut_of_le h.byteLength_text_le

/-! ### The other operations -/

private theorem byteLength_settle (before after : List Char) :
    byteLength (settle before after).1 + byteLength (settle before after).2 =
      byteLength before + byteLength after := by
  induction after generalizing before with
  | nil => rfl
  | cons c after ih =>
    rw [settle]
    split
    · rfl
    · rw [ih, byteLength_cons, byteLength_cons]
      omega

theorem length_settled (l : Line) : l.settled.length = l.length :=
  byteLength_settle l.before l.after

theorem byteLength_backwardWhile_le (p : Char → Bool) (inside : Bool) (before after : List Char) :
    byteLength (backwardWhile p inside before after).1 ≤ byteLength before := by
  induction before generalizing inside after with
  | nil => exact Nat.le_refl 0
  | cons c before ih =>
    rw [backwardWhile]
    split
    · exact Nat.le_trans (ih _ _) (Nat.le_add_left _ _)
    · exact Nat.le_refl _

theorem byteLength_beforeWord_le (l : Line) : byteLength l.beforeWord ≤ byteLength l.before :=
  Nat.le_trans (byteLength_backwardWhile_le _ _ _ _) (byteLength_backwardWhile_le _ _ _ _)

/-- Swapping two clusters puts the part that is after the cursor in front of the part before it. -/
theorem transpose_eq {l : Line} (hbefore : l.before ≠ []) (hafter : l.after ≠ []) : l.transpose =
    some ({ l with
      before := (partBefore l.before l.after).reverse ++ (partAfter l.before l.after).reverse ++
        (backward l.before l.after).1
      after := (forward l.before l.after).2 } : Line).settled := by
  obtain ⟨piece, hpiece, hpassed⟩ := forward_moves l.before l.after
  -- What the walk passes over is the part after the cursor.
  have hpart : piece = partAfter l.before l.after :=
    List.append_cancel_right (hpiece.symm.trans (partAfter_spec l.before l.after))
  have hsecond : (forward l.before l.after).1.take
      ((forward l.before l.after).1.length - l.before.length) =
        (partAfter l.before l.after).reverse := by
    rw [hpassed, List.length_append, Nat.add_sub_cancel, ← hpart]
    exact List.take_left
  have hfirst : l.before.take (l.before.length - (backward l.before l.after).1.length) =
      (partBefore l.before l.after).reverse := by rw [partBefore, List.reverse_reverse]
  rw [transpose, if_neg (by simp [hbefore, hafter])]
  simp only [hfirst, hsecond]

/-- Swapping two clusters changes their order alone. -/
theorem length_transpose {l l' : Line} (h : l.transpose = some l') : l'.length = l.length := by
  obtain ⟨hfull, -⟩ := Option.ite_none_left_eq_some.mp h
  simp only [Bool.or_eq_true, List.isEmpty_iff, not_or] at hfull
  rw [transpose_eq hfull.1 hfull.2] at h
  rw [← Option.some.inj h, length_settled]
  have hbytes := congrArg byteLength (partBefore_spec l.before l.after).1
  have hbytes' := congrArg byteLength (partAfter_spec l.before l.after)
  simp only [length, byteLength_append, byteLength_reverse] at hbytes hbytes' ⊢
  omega

theorem capacity_apply (op : Operation) (l : Line) : (op.apply l).capacity = l.capacity := by
  have hresult {l' : Line} (h : op.result? l = some l') : l'.capacity = l.capacity := by
    cases op with
    | setText | take =>
      rw [← Option.some.inj h]
      rfl
    | insert | transpose =>
      rw [← eq_of_not_refused h]
      rfl
    | _ => rw [← eq_of_not_refused h]
  rw [Operation.apply]
  cases h : op.result? l with
  | none => rfl
  | some l' => exact hresult h

/-- One operation keeps a line within its capacity. -/
theorem fits_apply (op : Operation) {l : Line} (hl : l.Fits) : (op.apply l).Fits := by
  rw [Fits, capacity_apply, Operation.apply]
  cases h : op.result? l with
  | none => exact hl
  | some l' =>
    change l'.length ≤ l.capacity
    rw [Fits, length] at hl
    cases op with
    | insert chunk =>
      obtain ⟨hroom, -⟩ := Option.ite_none_left_eq_some.mp h
      rw [Bool.or_eq_true, not_or, decide_eq_true_eq] at hroom
      rw [← eq_of_not_refused h, length_settled]
      have hfits := hroom.2
      rw [length] at hfits
      change byteLength (chunk.reverse ++ l.before) + byteLength l.after ≤ l.capacity
      rw [byteLength_append, byteLength_reverse]
      omega
    | setText t =>
      rw [← Option.some.inj h, ← byteLength_text, text_setText]
      exact byteLength_cut_le l.capacity t
    | transpose =>
      rw [length_transpose h]
      exact hl
    | left =>
      rw [← eq_of_not_refused h, length, byteLength_backward]
      exact hl
    | right =>
      rw [← eq_of_not_refused h, length, byteLength_forward]
      exact hl
    | delete =>
      have hbytes := congrArg byteLength (partAfter_spec l.before l.after)
      rw [byteLength_append] at hbytes
      rw [← eq_of_not_refused h]
      change byteLength l.before + byteLength (forward l.before l.after).2 ≤ l.capacity
      omega
    | backspace =>
      have hbytes := congrArg byteLength (partBefore_spec l.before l.after).1
      rw [byteLength_append] at hbytes
      rw [← eq_of_not_refused h]
      change byteLength (backward l.before l.after).1 + byteLength l.after ≤ l.capacity
      omega
    | deleteWord =>
      have hbytes := l.byteLength_beforeWord_le
      rw [← eq_of_not_refused h]
      change byteLength l.beforeWord + byteLength l.after ≤ l.capacity
      omega
    | home | moveEnd =>
      rw [← eq_of_not_refused h]
      simp only [length, byteLength_text, byteLength_reverse, byteLength_nil, Nat.zero_add,
        Nat.add_zero]
      exact hl
    | killToEnd =>
      rw [← eq_of_not_refused h]
      exact Nat.le_trans (Nat.add_le_add_left (Nat.zero_le _) _) hl
    | clear =>
      rw [← eq_of_not_refused h]
      exact Nat.zero_le _
    | take =>
      rw [← Option.some.inj h]
      exact Nat.zero_le _

theorem capacity_edited (l : Line) (ops : List Operation) :
    (l.edited ops).capacity = l.capacity := by
  induction ops using List.reverseRecOn with
  | nil => rfl
  | append_singleton ops op ih => rw [edited_concat, capacity_apply, ih]

/-- **Operations keep a line within its capacity.** -/
theorem fits_edited {l : Line} (hl : l.Fits) (ops : List Operation) : (l.edited ops).Fits := by
  induction ops using List.reverseRecOn with
  | nil => exact hl
  | append_singleton ops op ih =>
    rw [edited_concat]
    exact fits_apply op ih

end Line

end Typeline
