import Typeline.Edit.View
import Typeline.Proofs.Terminal.Replay
import Typeline.Proofs.Text.OwnClusters

/-!
# What a drawing shows on the screen

A drawing shows the prompt, a part of the line and a hint. If each of their characters is a cluster
of its own that takes room on a terminal, they are printed one after the other, and the columns that
a drawing counts are the cells that the characters fill. In mask mode this asks nothing of the
characters of the line but that they are clusters of their own: the glyphs that stand for them are
printed in one column. The style of a hint is not drawn.

## Main definitions

* `LineView.DrawsAlone` : what is drawn consists of characters that are printed one by one.
* `LineView.shownHint` : the part of the hint for which there are columns.
* `LineView.shownText` : prompt, a part of the line, and hint, as they are shown.

## Main results

* `LineView.DrawsAlone.contentWidth_eq` : the columns of a part of the line.
* `LineView.DrawsAlone.shows_shownText` : writing prompt, line and hint prints the shown text.
-/

namespace Typeline

open Screen (cellsOf)

theorem charWidth_maskGlyph : charWidth maskGlyph = 1 := by
  decide +kernel

theorem Line.textBefore_infix (l : Line) : l.textBefore <:+: l.text :=
  (List.prefix_append l.textBefore l.after).isInfix

theorem Hint.style_eq_some {h : Hint} {before after : Text}
    (hstyle : h.style = some (before, after)) :
    (∃ a b c, before = (ControlSequence.style a b c).text) ∧
      after = (ControlSequence.styleSingle 0).text := by
  rw [Hint.style] at hstyle
  dsimp only at hstyle
  generalize (if h.bold = true then 1 else 0) = intensity at hstyle
  split at hstyle
  · obtain ⟨rfl, rfl⟩ := Prod.mk.inj (Option.some.inj hstyle)
    exact ⟨⟨_, _, _, rfl⟩, rfl⟩
  · split at hstyle
    · obtain ⟨rfl, rfl⟩ := Prod.mk.inj (Option.some.inj hstyle)
      exact ⟨⟨_, _, _, rfl⟩, rfl⟩
    · exact absurd hstyle (by simp)

/-- What fits of a text of clusters of one character is a start of it that takes no more columns
than there are. -/
theorem fitClusters_spec (room : Nat) {t : Text} (ht : ∀ c ∈ t, 0 < charWidth c) :
    ∃ kept rest, t = kept ++ rest ∧
      fitClusters room (t.map fun c => [c]) = (kept, (kept.map charWidth).sum) ∧
      (kept.map charWidth).sum ≤ room := by
  induction t generalizing room with
  | nil => exact ⟨[], [], rfl, rfl, Nat.zero_le _⟩
  | cons c t ih =>
    have hc := clusterWidth_singleton (ht c List.mem_cons_self)
    rw [List.map_cons, fitClusters, hc]
    by_cases hroom : charWidth c ≤ room
    · obtain ⟨kept, rest, hsplit, hfit, hle⟩ :=
        ih (room - charWidth c) fun d hd => ht d (List.mem_cons_of_mem c hd)
      refine ⟨c :: kept, rest, by rw [hsplit, List.cons_append], ?_, ?_⟩
      · rw [if_pos hroom, hfit]
        rfl
      · rw [List.map_cons, List.sum_cons]
        omega
    · exact ⟨[], c :: t, rfl, by rw [if_neg hroom]; rfl, Nat.zero_le _⟩

theorem PrintsAlone.escape_notMem {limit : Nat} {t : Text} (h : PrintsAlone limit t) :
    escape ∉ t :=
  fun hmem => absurd (h.charWidth_pos _ hmem) (by decide +kernel)

theorem PrintsAlone.length_cellsOf {limit : Nat} {t : Text} (h : PrintsAlone limit t) :
    (cellsOf t).length = textWidth t := by
  rw [h.width, Screen.length_cellsOf h.charWidth_pos]

namespace LineView

/-- All that is drawn consists of characters that are clusters of their own and are printed in one
column at least and in `limit` columns at most. In mask mode glyphs are drawn for the line. -/
structure DrawsAlone (limit : Nat) (v : LineView) : Prop where
  prompt : PrintsAlone limit v.prompt
  line : OwnClusters v.line.text
  printed : v.masked = true ∨ PrintsAlone limit v.line.text
  hint : ∀ hinter hint, v.hinter = some hinter → hinter v.line.text = some hint →
    PrintsAlone limit hint.text

theorem DrawsAlone.mono {limit limit' : Nat} {v : LineView} (h : v.DrawsAlone limit)
    (hle : limit ≤ limit') : v.DrawsAlone limit' where
  prompt := h.prompt.mono hle
  line := h.line
  printed := h.printed.imp_right fun hline => hline.mono hle
  hint hinter hint hsome hgiven := (h.hint hinter hint hsome hgiven).mono hle

/-- Without hints only the prompt and the line are drawn. -/
theorem drawsAlone_of_isNone {limit : Nat} {v : LineView}
    (h : v.hinter.isNone = true ∧ PrintsAlone limit v.prompt ∧ OwnClusters v.line.text ∧
      (v.masked = true ∨ PrintsAlone limit v.line.text)) : v.DrawsAlone limit where
  prompt := h.2.1
  line := h.2.2.1
  printed := h.2.2.2
  hint hinter hint hsome := by
    rw [hsome] at h
    exact absurd h.1 Bool.false_ne_true

/-- Drawing the cursor: it goes to the start of its row and from there to a column. A column that
is out of reach of the sequence is behind the last one of the screen. -/
theorem shows_forwardBy (s : Screen) {column : Nat} (hmax : column ≤ 65535 ∨ s.columns ≤ 65536) :
    s.Shows ('\r' :: forwardBy column) (s.moveTo s.row column) := by
  have hreturn := s.shows_return
  rw [forwardBy]
  split
  · next hpos =>
    have hsame : (s.moveTo s.row 0).moveTo s.row (0 + min 65535 column) =
        s.moveTo s.row column := by
      have hlast : min (min 65535 column) (s.columns - 1) = min column (s.columns - 1) := by omega
      rw [Nat.zero_add, Screen.moveTo_moveTo, Screen.moveTo, Screen.moveTo, hlast]
    have hforward := Screen.shows_of_reads (StreamParser.reads_cursorForward column)
      (s.moveTo s.row 0)
    change Screen.Shows _ _ ((s.moveTo s.row 0).moveTo s.row
      (min 0 (s.columns - 1) + max (min 65535 column) 1)) at hforward
    rw [Nat.zero_min, Nat.max_eq_left (by omega), hsame] at hforward
    exact hreturn.append hforward
  · next hzero =>
    rw [show column = 0 by omega]
    exact hreturn

/-- As much of the hint as there are columns for. -/
def shownHint (v : LineView) : Text :=
  match v.hinter with
  | none => []
  | some hinter =>
    if v.width ≤ v.usedWidth then []
    else match hinter v.line.text with
      | none => []
      | some hint => (fitClusters (v.width - v.usedWidth) (clusters hint.text)).1

/-- The prompt, a part of the line, and the hint, as they are shown. -/
def shownText (v : LineView) (part : Text) : Text :=
  v.prompt ++ content v.masked part ++ v.shownHint

/-- Either no hint is shown, or a hint was given where columns were left, and as much of it is shown
as fits, in its style. -/
theorem hint_cases (v : LineView) :
    (v.shownHint = [] ∧ v.hintPart.text = [] ∧ v.hintPart.width = 0) ∨
      ∃ hinter hint, v.hinter = some hinter ∧ hinter v.line.text = some hint ∧
        v.usedWidth < v.width ∧
        (v.shownHint, v.hintPart.width) =
          fitClusters (v.width - v.usedWidth) (clusters hint.text) ∧
        (v.hintPart.text = v.shownHint ∨ ∃ a b c, v.hintPart.text =
          (ControlSequence.style a b c).text ++ v.shownHint ++
            (ControlSequence.styleSingle 0).text) := by
  rw [shownHint, hintPart]
  cases v.hinter with
  | none => exact Or.inl ⟨rfl, rfl, rfl⟩
  | some hinter =>
    by_cases hroom : v.width ≤ v.usedWidth
    · simp only [hroom, if_true]
      exact Or.inl ⟨trivial, rfl, rfl⟩
    · simp only [hroom, if_false]
      cases hhint : hinter v.line.text with
      | none => exact Or.inl ⟨rfl, rfl, rfl⟩
      | some hint =>
        refine Or.inr ⟨hinter, hint, rfl, hhint, by omega, ?_⟩
        dsimp only
        cases hstyle : hint.style with
        | none => exact ⟨rfl, Or.inl rfl⟩
        | some style =>
          obtain ⟨before, after⟩ := style
          obtain ⟨⟨a, b, c, rfl⟩, rfl⟩ := Hint.style_eq_some hstyle
          exact ⟨rfl, Or.inr ⟨a, b, c, rfl⟩⟩

/-- The style around a hint is not drawn. -/
theorem shows_hint {v : LineView} {s s' : Screen} (hshows : s.Shows v.shownHint s') :
    s.Shows v.hintPart.text s' := by
  rcases v.hint_cases with ⟨hempty, htext, -⟩ | ⟨-, -, -, -, -, -, htext | ⟨a, b, c, htext⟩⟩
  · rwa [htext, ← hempty]
  · rwa [htext]
  · rw [htext]
    exact ((s.shows_style a b c).append hshows).append (s'.shows_styleSingle 0)

/-- The empty line shows the prompt alone, if there is no hint for it. -/
theorem shownText_of_empty {v : LineView} (hline : v.line.text = [])
    (hhint : ∀ hinter, v.hinter = some hinter → hinter [] = none) :
    v.shownText [] = v.prompt := by
  have hnone : v.shownHint = [] := by
    rcases v.hint_cases with ⟨hempty, -⟩ | ⟨hinter, hint, hhinter, hgiven, -⟩
    · exact hempty
    · rw [hline, hhint hinter hhinter] at hgiven
      exact absurd hgiven (by simp)
  have hcontent : content v.masked [] = [] := by
    rw [content, clusterCount]
    split <;> rfl
  rw [shownText, hnone, hcontent, List.append_nil, List.append_nil]

namespace DrawsAlone

variable {limit : Nat} {v : LineView} (h : v.DrawsAlone limit)

include h

theorem promptWidth_eq : promptWidth v.prompt = (cellsOf v.prompt).length := by
  have hescape : ¬v.prompt.contains escape = true := by
    simpa using h.prompt.escape_notMem
  rw [promptWidth, if_neg hescape, h.prompt.length_cellsOf]

/-! ### Parts of the line -/

section Part

variable {part : Text} (hpart : part <:+: v.line.text)

include hpart

theorem ownClusters_part : OwnClusters part := by
  obtain ⟨before, after, htext⟩ := hpart
  have hline := h.line
  rw [← htext] at hline
  exact hline.left.right

theorem printsAlone_part (hmasked : ¬v.masked = true) : PrintsAlone limit part := by
  obtain ⟨before, after, htext⟩ := hpart
  have hline := h.printed.resolve_left hmasked
  rw [← htext] at hline
  exact hline.left.right

theorem content_eq : content v.masked part =
    if v.masked then List.replicate part.length maskGlyph else part := by
  rw [content, (h.ownClusters_part hpart).count]

/-- The columns that are counted for a part of the line are the cells that it fills. -/
theorem contentWidth_eq :
    contentWidth v.masked part = (cellsOf (content v.masked part)).length := by
  by_cases hmasked : v.masked = true
  · rw [contentWidth, if_pos hmasked, content, if_pos hmasked, Screen.length_cellsOf]
    · rw [List.map_replicate, charWidth_maskGlyph, List.sum_replicate_nat,
        Nat.mul_one]
    · intro c hc
      rw [List.eq_of_mem_replicate hc, charWidth_maskGlyph]
      exact Nat.one_pos
  · rw [contentWidth, if_neg hmasked, content, if_neg hmasked,
      (h.printsAlone_part hpart hmasked).length_cellsOf]

theorem charWidth_content (hlimit : 0 < limit) :
    ∀ c ∈ content v.masked part, 0 < charWidth c ∧ charWidth c ≤ limit := by
  intro c hc
  by_cases hmasked : v.masked = true
  · rw [content, if_pos hmasked] at hc
    rw [List.eq_of_mem_replicate hc, charWidth_maskGlyph]
    exact ⟨Nat.one_pos, hlimit⟩
  · rw [content, if_neg hmasked] at hc
    have hprints := h.printsAlone_part hpart hmasked
    exact ⟨hprints.charWidth_pos c hc, hprints.charWidth_le c hc⟩

end Part

/-! ### The hint -/

/-- What is shown of a hint consists of characters that are printed, and fits into the columns that
are left. -/
theorem hint_spec : (∀ c ∈ v.shownHint, 0 < charWidth c ∧ charWidth c ≤ limit) ∧
    v.hintPart.width = (cellsOf v.shownHint).length ∧
    (v.shownHint = [] ∨ v.usedWidth + (cellsOf v.shownHint).length ≤ v.width) := by
  rcases v.hint_cases with ⟨hempty, -, hwidth⟩ | ⟨hinter, hint, hhinter, hhint, hroom, hshown, -⟩
  · rw [hempty, hwidth]
    exact ⟨fun c hc => absurd hc List.not_mem_nil, rfl, Or.inl rfl⟩
  · have hprints := h.hint hinter hint hhinter hhint
    obtain ⟨kept, rest, hsplit, hfit, hle⟩ :=
      fitClusters_spec (v.width - v.usedWidth) hprints.charWidth_pos
    rw [← hprints.ownClusters, ← hshown] at hfit
    obtain ⟨htext, hwidth⟩ := Prod.mk.inj hfit
    rw [hsplit] at hprints
    have hlength := Screen.length_cellsOf hprints.left.charWidth_pos
    rw [htext, hwidth]
    exact ⟨fun c hc => ⟨hprints.left.charWidth_pos c hc, hprints.left.charWidth_le c hc⟩,
      hlength.symm, Or.inr (by omega)⟩

/-! ### All that is shown -/

theorem charWidth_shownText (hlimit : 0 < limit) {part : Text} (hpart : part <:+: v.line.text) :
    ∀ c ∈ v.shownText part, 0 < charWidth c ∧ charWidth c ≤ limit := by
  intro c hc
  rw [shownText, List.mem_append, List.mem_append] at hc
  rcases hc with (hc | hc) | hc
  · exact ⟨h.prompt.charWidth_pos c hc, h.prompt.charWidth_le c hc⟩
  · exact h.charWidth_content hpart hlimit c hc
  · exact h.hint_spec.1 c hc

/-- **Writing prompt, line and hint.** They are printed character by character. -/
theorem shows_shownText (hlimit : 0 < limit) {part : Text} (hpart : part <:+: v.line.text)
    {s : Screen} (hjoiner : s.afterJoiner = false) :
    s.Shows (v.prompt ++ content v.masked part ++ v.hintPart.text)
        (s.putAll (v.shownText part)) := by
  have hpos : ∀ c ∈ v.prompt ++ content v.masked part, 0 < charWidth c := by
    intro c hc
    exact (h.charWidth_shownText hlimit hpart c (List.mem_append_left _ hc)).1
  obtain ⟨hline, hkept⟩ := Screen.shows_putAll hjoiner hpos
  obtain ⟨hhint, -⟩ := Screen.shows_putAll hkept fun c hc => (h.hint_spec.1 c hc).1
  rw [shownText, Screen.putAll_append]
  exact hline.append (shows_hint hhint)

end DrawsAlone

end LineView

end Typeline
