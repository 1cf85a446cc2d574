import Typeline.Proofs.Edit.CursorBoundary
import Typeline.Proofs.Terminal.Replay
import Typeline.Proofs.Text.PrintedWidth

/-!
# Printing a text in one row

A text without control characters is printed character by character. As long as the row has room,
the cursor goes on by the printed columns of the text. A program that counts the columns of
clusters finds the cursor where it counts, for the text before any place between two clusters, if
and only if it counts for each cluster as many columns as are printed.

## Main results

* `Screen.shows_printAll`, `Screen.cursor_printAll` : printing any characters.
* `Screen.column_feedText` : the cursor behind a text, and behind the text before any place in it.
-/

namespace Typeline

namespace Screen

/-- Print characters one after the other. -/
def printAll (s : Screen) (t : Text) : Screen := t.foldl print s

/-- A text without control characters is printed. -/
theorem shows_printAll {t : Text} (h : ∀ c ∈ t, isControl c = false) (s : Screen) :
    s.Shows t (s.printAll t) := by
  induction t generalizing s with
  | nil => exact .nil s
  | cons c t ih =>
    have hfirst := shows_of_reads (StreamParser.reads_print (h c List.mem_cons_self)) s
    exact hfirst.append (ih (fun d hd => h d (List.mem_cons_of_mem c hd)) _)

/-- The cursor behind one character that leaves room in the row. -/
theorem cursor_print {s : Screen} {c : Char} (hpending : s.wrapPending = false)
    (hroom : s.column + (if s.afterJoiner then 0 else charWidth c) < s.columns) :
    (s.print c).row = s.row ∧ (s.print c).wrapPending = false ∧
      (s.print c).column = s.column + (if s.afterJoiner then 0 else charWidth c) ∧
      (s.print c).afterJoiner = (c == joiner) := by
  rw [print]
  by_cases hjoins : (charWidth c == 0 || s.afterJoiner) = true
  · rw [if_pos hjoins]
    refine ⟨rfl, hpending, ?_, rfl⟩
    rw [Bool.or_eq_true, beq_iff_eq] at hjoins
    change s.column = _
    split
    · rfl
    · next hfree =>
      rw [hjoins.resolve_right hfree]
      rfl
  · rw [if_neg hjoins]
    rw [Bool.not_eq_true, Bool.or_eq_false_iff] at hjoins
    rw [hjoins.2, if_neg Bool.false_ne_true] at hroom ⊢
    obtain ⟨hrow, hfree, hcolumn⟩ :=
      cursor_put_of_room (s := { s with afterJoiner := c == joiner }) hpending hroom c
    refine ⟨hrow, hfree, hcolumn, ?_⟩
    rw [put_of_fits (s := { s with afterJoiner := c == joiner }) hpending (Nat.le_of_lt hroom)]

/-- The cursor behind characters that leave room in the row. -/
theorem cursor_printAll {s : Screen} {t : Text} (hpending : s.wrapPending = false)
    (hroom : s.column + printedFrom s.afterJoiner t < s.columns) :
    (s.printAll t).row = s.row ∧ (s.printAll t).wrapPending = false ∧
      (s.printAll t).column = s.column + printedFrom s.afterJoiner t := by
  induction t generalizing s with
  | nil => exact ⟨rfl, hpending, rfl⟩
  | cons c t ih =>
    rw [printedFrom] at hroom ⊢
    obtain ⟨hrow, hfree, hcolumn, hjoiner⟩ :=
      cursor_print (c := c) hpending (by omega)
    have hcolumns := (keeps_print s c).2
    obtain ⟨hrow', hfree', hcolumn'⟩ := ih hfree (by rw [hcolumn, hjoiner, hcolumns]; omega)
    refine ⟨hrow'.trans hrow, hfree', hcolumn'.trans ?_⟩
    rw [hcolumn, hjoiner, Nat.add_assoc]

/-- The cursor behind a text on a blank screen. -/
theorem cursor_feedText_blank {t : Text} (columns : Nat) (hcontrol : ∀ c ∈ t, isControl c = false)
    (hroom : printedWidth t < columns) :
    ((blank columns).feedText t).row = 0 ∧ ((blank columns).feedText t).wrapPending = false ∧
      ((blank columns).feedText t).column = printedWidth t := by
  rw [feedText_of_shows rfl (shows_printAll hcontrol _)]
  have hcursor := cursor_printAll (s := blank columns) (t := t) rfl (by
    change 0 + printedWidth t < max columns 1
    omega)
  change _ ∧ _ ∧ _ = 0 + printedWidth t at hcursor
  rwa [Nat.zero_add] at hcursor

/-- **Columns that are counted and columns that are printed.** A text without control characters
that leaves room in the row moves the cursor by the printed columns of its clusters. That is where
the columns of clusters are counted to, for the text before any place between two clusters, if and
only if every cluster counts for the columns that are printed of it. Clusters in which every
character is shown as it is by itself, and clusters that start with a wide character, count for as
many columns as are printed of them, but for two at most. -/
theorem column_feedText {t : Text} {columns : Nat} (hcontrol : ∀ c ∈ t, isControl c = false)
    (hroom : printedWidth t < columns) :
    ((blank columns).feedText t).row = 0 ∧
      ((blank columns).feedText t).wrapPending = false ∧
      ((blank columns).feedText t).column = ((clusters t).map printedWidth).sum ∧
      ((∀ l : Line, l.text = t → l.OnBoundary →
          ((blank columns).feedText l.textBefore).column = textWidth l.textBefore) ↔
        ∀ cluster ∈ clusters t, printedWidth cluster = clusterWidth cluster) ∧
      ∀ cluster ∈ clusters t, Steady cluster ∨ WideFirst cluster →
        clusterWidth cluster = min 2 (printedWidth cluster) := by
  obtain ⟨hrow, hfree, hcolumn⟩ := cursor_feedText_blank columns hcontrol hroom
  refine ⟨hrow, hfree, hcolumn.trans (addsUp_printedWidth.eq_sum t), ?_, ?_⟩
  · -- Up to a border the text is printed as it is in the whole text.
    have hpart {s u : Text} (hsplit : s ++ u = t) (hborder : isBoundary s.reverse u = true) :
        ((blank columns).feedText s).column = printedWidth s := by
      subst hsplit
      rw [printedWidth_append hborder] at hroom
      exact (cursor_feedText_blank columns (fun c hc => hcontrol c (List.mem_append_left u hc))
        (by omega)).2.2
    have hclusters : (∀ cluster ∈ clusters t, printedWidth cluster = clusterWidth cluster) ↔
        ∀ cluster ∈ clusters t, printedWidth cluster = textWidth cluster :=
      forall₂_congr fun cluster hmem => by rw [textWidth_of_mem_clusters hmem]
    rw [hclusters, ← addsUp_printedWidth.eq_iff addsUp_textWidth]
    constructor
    · intro h s u hsplit hborder
      have hline := h ⟨s.reverse, u, 0⟩ (by rw [Line.text, List.reverse_reverse, hsplit]) hborder
      rw [Line.textBefore, List.reverse_reverse] at hline
      rw [← hline, hpart hsplit hborder]
    · intro h l htext hborder
      have hborder' : isBoundary l.textBefore.reverse l.after = true := by
        rwa [Line.textBefore, List.reverse_reverse]
      exact (hpart htext hborder').trans (h l.textBefore l.after htext hborder')
  · rintro cluster hmem (hsteady | hwide)
    · exact clusterWidth_of_steady hsteady
    · refine clusterWidth_of_wideFirst (fun c hc => hcontrol c ?_) hwide
      rw [← flatten_clusters t]
      exact List.mem_flatten_of_mem hmem hc

/-- A letter with an accent, a syllable of joined consonants, a flag, a hand with a skin tone, a
family of joined emoji and an ideograph. -/
def ordinaryClusters : Text :=
  ['e', '\u0301', 'क', '\u094D', 'ष', '🇫', '🇷', '👍', '🏽', '👨', joiner, '👩', joiner, '👧', '中']

theorem column_feedText_ordinaryClusters :
    (∀ c ∈ ordinaryClusters, isControl c = false) ∧ printedWidth ordinaryClusters < 80 ∧
      (∀ cluster ∈ clusters ordinaryClusters, Steady cluster ∨ WideFirst cluster) ∧
      ((blank 80).feedText ordinaryClusters).column = 11 ∧
      ∀ l : Line, l.text = ordinaryClusters → l.OnBoundary →
        ((blank 80).feedText l.textBefore).column = textWidth l.textBefore := by
  have hcontrol : ∀ c ∈ ordinaryClusters, isControl c = false := by
    simpa using (by decide +kernel : ordinaryClusters.all (fun c => !isControl c) = true)
  have hroom : printedWidth ordinaryClusters < 80 := by decide +kernel
  obtain ⟨-, -, hcolumn, hagree, hwidth⟩ := column_feedText hcontrol hroom
  have hkinds : ∀ cluster ∈ clusters ordinaryClusters, Steady cluster ∨ WideFirst cluster := by
    decide +kernel
  have hnarrow : ∀ cluster ∈ clusters ordinaryClusters, printedWidth cluster ≤ 2 := by
    decide +kernel
  have hsum : ((clusters ordinaryClusters).map printedWidth).sum = 11 := by decide +kernel
  refine ⟨hcontrol, hroom, hkinds, hcolumn.trans hsum, hagree.mpr fun cluster hmem => ?_⟩
  rw [hwidth cluster hmem (hkinds cluster hmem), Nat.min_eq_right (hnarrow cluster hmem)]

/-- A heart that a selector makes wide counts for two columns, and one is printed. -/
theorem exists_column_feedText_ne : ¬∀ (t : Text) (columns : Nat),
    (∀ c ∈ t, isControl c = false) → 2 * t.length < columns →
      ((blank columns).feedText t).column = textWidth t := by
  intro h
  have hcontrol : ∀ c ∈ ['❤', '\uFE0F'], isControl c = false := by
    simpa using (by decide +kernel : ['❤', '\uFE0F'].all (fun c => !isControl c) = true)
  have hcursor := cursor_feedText_blank 80 hcontrol (by decide +kernel)
  have hequal := h ['❤', '\uFE0F'] 80 hcontrol (by decide)
  rw [hcursor.2.2] at hequal
  exact absurd hequal (by decide +kernel)

end Screen

end Typeline
