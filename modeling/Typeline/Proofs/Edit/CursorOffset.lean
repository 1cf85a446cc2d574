import Typeline.Proofs.Edit.CursorBoundary
import Typeline.Proofs.Text.Borders

/-!
# The cursor as a byte offset

Outside of this library the cursor is a byte offset into the text of the line. Seen from there, an
operation that looks for a border of clusters finds the next one on its way: settling goes to the
least border that is not to the left, backspace to the greatest one to the left, and a text that is
cut to become a line keeps all that is before the greatest border within the capacity.

## Main results

* `Line.isLeast_settled` : where settling leaves the cursor.
* `Line.isGreatest_backspace` : where backspace leaves it.
* `Line.isGreatest_setText` : where the cut of a text is that becomes a line.
* `Line.backwardWhile_cons` : the walk over a word, cluster by cluster.
-/

namespace Typeline

namespace Line

theorem splitAtByte?_cursor (l : Line) : splitAtByte? l.cursor l.text = some (l.before, l.after) :=
  splitAtByte?_eq_some.mpr ⟨rfl, rfl⟩

private theorem isBorderAt_cursor_iff (l : Line) :
    isBorderAt l.text l.cursor = true ↔ l.OnBoundary := by
  rw [isBorderAt, holdsAt_of_splitAtByte? l.splitAtByte?_cursor]
  rfl

/-- The cursor is where the text is cut. -/
theorem byteLength_before_of_splitAtByte? {t : Text} {p : Nat} {before after : List Char}
    (h : splitAtByte? p t = some (before, after)) : byteLength before = p :=
  (splitAtByte?_eq_some.mp h).2

/-! ### Settling -/

/-- Settling is a walk to the right, where it is needed. -/
theorem settle_eq (before after : List Char) :
    settle before after = if isBoundary before after then (before, after)
      else forward before after := by
  induction after generalizing before with
  | nil => rw [isBoundary_nil_right, if_pos rfl, settle]
  | cons c after ih =>
    rw [settle, forward, ih]

theorem settled_of_onBoundary {l : Line} (h : l.OnBoundary) : l.settled = l := by
  rw [settled, settle_eq, if_pos (show isBoundary l.before l.after = true from h)]

theorem settled_of_not_onBoundary {l : Line} (h : ¬l.OnBoundary) : l.settled =
    { l with before := (forward l.before l.after).1, after := (forward l.before l.after).2 } := by
  rw [settled, settle_eq, if_neg (show ¬isBoundary l.before l.after = true from h)]

theorem text_settled (l : Line) : l.settled.text = l.text := by
  by_cases h : l.OnBoundary
  · rw [settled_of_onBoundary h]
  · obtain ⟨piece, hafter, hbefore⟩ := forward_moves l.before l.after
    rw [settled_of_not_onBoundary h, text, hbefore, List.reverse_append, List.reverse_reverse,
      List.append_assoc, ← hafter, text]

/-- **Settling.** The cursor goes to the least border that is not to the left of it. -/
theorem isLeast_settled (l : Line) :
    IsLeast {o | l.cursor ≤ o ∧ isBorderAt l.text o = true} l.settled.cursor := by
  by_cases h : l.OnBoundary
  · rw [settled_of_onBoundary h]
    exact ⟨⟨Nat.le_refl _, l.isBorderAt_cursor_iff.mpr h⟩, fun o ho => ho.1⟩
  · have hinside : l.cursor < byteLength l.text := by
      have hafter : l.after ≠ [] := by
        intro hnil
        rw [OnBoundary, hnil] at h
        exact h (isBoundary_nil_right _)
      have := byteLength_pos hafter
      rw [byteLength_of_splitAtByte? l.splitAtByte?_cursor]
      omega
    have hcursor : l.settled.cursor = l.cursor + forwardLength l.before l.after := by
      rw [settled_of_not_onBoundary h]
      exact byteLength_before_of_splitAtByte? (splitAtByte?_forward l.splitAtByte?_cursor)
    obtain ⟨⟨hbehind, hborder⟩, hleast⟩ := isLeast_forward l.splitAtByte?_cursor hinside
    rw [hcursor]
    refine ⟨⟨Nat.le_of_lt hbehind, hborder⟩, fun o ho => ?_⟩
    refine hleast ⟨Nat.lt_of_le_of_ne ho.1 ?_, ho.2⟩
    rintro rfl
    exact h (l.isBorderAt_cursor_iff.mp ho.2)

/-! ### Inserting and backspace -/

theorem chunk_ne_nil {l l' : Line} {chunk : Text} (h : l.insert chunk = some l') : chunk ≠ [] := by
  obtain ⟨hroom, -⟩ := Option.ite_none_left_eq_some.mp h
  rintro rfl
  exact hroom rfl

/-- **Backspace.** The cursor goes to the greatest border to the left of it. -/
theorem isGreatest_backspace {l l' : Line} (h : l.backspace = some l') :
    IsGreatest {o | o < l.cursor ∧ isBorderAt l.text o = true} l'.cursor := by
  obtain ⟨hfull, -⟩ := Option.ite_none_left_eq_some.mp h
  rw [List.isEmpty_iff] at hfull
  have hcursor : l'.cursor = l.cursor - backwardLength l.before l.after := by
    rw [← eq_of_not_refused h]
    exact byteLength_before_of_splitAtByte? (splitAtByte?_backward l.splitAtByte?_cursor)
  rw [hcursor]
  exact isGreatest_backward l.splitAtByte?_cursor (byteLength_pos hfull)

/-! ### Cutting a text that becomes a line -/

/-- There is no cut inside of a character. -/
theorem le_or_le_of_splitAtByte? {t : Text} {p o : Nat} {before after : List Char} {c : Char}
    (h : splitAtByte? p t = some (before, c :: after)) (ho : (splitAtByte? o t).isSome = true) :
    o ≤ p ∨ p + c.utf8Size ≤ o := by
  obtain ⟨⟨before', after'⟩, hsplit⟩ := Option.isSome_iff_exists.mp ho
  rcases Nat.lt_or_ge p o with hlt | hle
  · obtain ⟨s, rfl, hafter⟩ := exists_piece h hsplit (Nat.le_of_lt hlt)
    have hbytes := byteLength_before_of_splitAtByte? h
    have hbytes' := byteLength_before_of_splitAtByte? hsplit
    rw [byteLength_append, byteLength_reverse] at hbytes'
    cases s with
    | nil =>
      rw [byteLength_nil] at hbytes'
      omega
    | cons d s =>
      obtain ⟨rfl, -⟩ := List.cons.inj hafter
      rw [byteLength_cons] at hbytes'
      omega
  · exact Or.inl hle

private theorem le_or_le_of_isBorderAt {t : Text} {p o : Nat} {before after : List Char} {c : Char}
    (h : splitAtByte? p t = some (before, c :: after)) (ho : isBorderAt t o = true) :
    o ≤ p ∨ p + c.utf8Size ≤ o := by
  obtain ⟨before', after', hsplit, -⟩ := exists_splitAtByte?_of_holdsAt ho
  exact le_or_le_of_splitAtByte? h (Option.isSome_iff_exists.mpr ⟨_, hsplit⟩)

/-- The walk over a text keeps what is before the greatest border within the room that there is, if
it has kept what is before the greatest border that it has passed. -/
theorem isGreatest_longestFit {t : Text} {room : Nat} {kept rest before after : List Char}
    (hposition : splitAtByte? (byteLength before) t = some (before, after))
    (hkept : splitAtByte? (byteLength kept) t = some (kept, rest))
    (hgreatest : IsGreatest {o | o ≤ byteLength before ∧ isBorderAt t o = true} (byteLength kept)) :
    (∃ rest', splitAtByte? (byteLength (longestFit room kept before after)) t =
        some (longestFit room kept before after, rest')) ∧
      IsGreatest {o | o ≤ byteLength before + room ∧ isBorderAt t o = true}
        (byteLength (longestFit room kept before after)) := by
  induction after generalizing room kept rest before with
  | nil =>
    rw [longestFit]
    refine ⟨⟨rest, hkept⟩, ⟨Nat.le_add_right_of_le hgreatest.1.1, hgreatest.1.2⟩, fun o ho => ?_⟩
    obtain ⟨before', after', hsplit, -⟩ := exists_splitAtByte?_of_holdsAt ho.2
    have hlength := byteLength_of_splitAtByte? hsplit
    have hlength' := byteLength_of_splitAtByte? hposition
    rw [byteLength_nil] at hlength'
    exact hgreatest.2 ⟨by omega, ho.2⟩
  | cons c after ih =>
    have hnone {o : Nat} (ho : isBorderAt t o = true) := le_or_le_of_isBorderAt hposition ho
    rw [longestFit]
    by_cases hc : c.utf8Size ≤ room
    · have hnext : splitAtByte? (byteLength (c :: before)) t = some (c :: before, after) := by
        refine splitAtByte?_eq_some.mpr ⟨?_, rfl⟩
        rw [List.reverse_cons, List.append_assoc]
        exact (splitAtByte?_eq_some.mp hposition).1
      have hborder : isBorderAt t (byteLength (c :: before)) = isBoundary (c :: before) after := by
        rw [isBorderAt, holdsAt_of_splitAtByte? hnext]
      have hroom : byteLength (c :: before) + (room - c.utf8Size) = byteLength before + room := by
        rw [byteLength_cons]
        omega
      rw [if_pos hc, ← hroom]
      by_cases hboundary : isBoundary (c :: before) after = true
      · rw [if_pos hboundary]
        exact ih hnext hnext ⟨⟨Nat.le_refl _, hborder.trans hboundary⟩, fun o ho => ho.1⟩
      · rw [if_neg hboundary]
        refine ih hnext hkept ⟨⟨?_, hgreatest.1.2⟩, fun o ho => hgreatest.2 ⟨?_, ho.2⟩⟩
        · rw [byteLength_cons]
          exact Nat.le_trans hgreatest.1.1 (Nat.le_add_left _ _)
        · have hle := ho.1
          rw [byteLength_cons] at hle
          rcases hnone ho.2 with hpassed | hlater
          · exact hpassed
          · have heq : o = byteLength (c :: before) := by
              rw [byteLength_cons]
              omega
            exact absurd (hborder.symm.trans (heq ▸ ho.2)) hboundary
    · rw [if_neg hc]
      refine ⟨⟨rest, hkept⟩, ⟨Nat.le_add_right_of_le hgreatest.1.1, hgreatest.1.2⟩, fun o ho => ?_⟩
      have hle := ho.1
      rcases hnone ho.2 with hpassed | hlater
      · exact hgreatest.2 ⟨hpassed, ho.2⟩
      · omega

theorem isBorderAt_zero (t : Text) : isBorderAt t 0 = true := by
  have hstart : splitAtByte? 0 t = some ([], t) := splitAtByte?_eq_some.mpr ⟨rfl, rfl⟩
  rw [isBorderAt, holdsAt_of_splitAtByte? hstart, isBoundary_nil_left]

/-- **Cutting a text that becomes a line.** What is kept ends at the greatest border within the
capacity. -/
theorem isGreatest_setText (l : Line) (t : Text) :
    (∃ rest, splitAtByte? (l.setText t).cursor t = some ((l.setText t).before, rest)) ∧
      IsGreatest {o | o ≤ l.capacity ∧ isBorderAt t o = true} (l.setText t).cursor := by
  have hstart : splitAtByte? (byteLength []) t = some ([], t) := splitAtByte?_eq_some.mpr ⟨rfl, rfl⟩
  have hwalk := @isGreatest_longestFit t l.capacity [] t [] t hstart hstart
    ⟨⟨Nat.le_refl _, isBorderAt_zero t⟩, fun o ho => ho.1⟩
  rwa [byteLength_nil, Nat.zero_add] at hwalk

/-! ### Walking over a word -/

/-- Inside of a cluster the walk goes on to the start of the cluster. -/
theorem backwardWhile_inside (p : Char → Bool) (c : Char) (before after : List Char) :
    backwardWhile p true (c :: before) after =
      backwardWhile p false (backward (c :: before) after).1 (backward (c :: before) after).2 := by
  induction before generalizing c after with
  | nil =>
    rw [backwardWhile, Bool.true_or, if_pos rfl, backward, isBoundary_nil_left, if_pos rfl]
    rfl
  | cons d before ih =>
    rw [backwardWhile, Bool.true_or, if_pos rfl, backward]
    by_cases h : isBoundary (d :: before) (c :: after) = true
    · rw [if_pos h, h]
      rfl
    · rw [if_neg h, Bool.eq_false_of_not_eq_true h, ← ih d (c :: after)]
      rfl

/-- **Walking over a word.** The walk goes back by one cluster as long as the last character of the
cluster satisfies its test. -/
theorem backwardWhile_cons (p : Char → Bool) (c : Char) (before after : List Char) :
    backwardWhile p false (c :: before) after =
      if p c then
        backwardWhile p false (backward (c :: before) after).1 (backward (c :: before) after).2
      else (c :: before, after) := by
  rw [← backwardWhile_inside, backwardWhile, backwardWhile, Bool.false_or, Bool.true_or, if_pos rfl]

end Line

end Typeline
