import Typeline.Edit.View
import Typeline.Proofs.Edit.Likeness

/-!
# What a masked line shows

A masked line is drawn with one glyph for each of its clusters, and everything else in its drawing
is a matter of counting: which clusters fit into a row, how many rows there are, where the cursor
is. Over an alphabet the clusters are the characters, so that lines which are alike, character by
character, are drawn by the same text.

## Main results

* `LineView.window_eq_of_masked` : the same part of the line is shown.
* `LineView.draw_eq_of_masked` : the same text is written.
-/

namespace Typeline

namespace Window

variable {width : Text → Nat} {parts parts' : List Text} (prompt columns cursor : Nat)

/-- Clusters of the same lengths and widths are left out alike at the start. -/
theorem scroll_congr
    (h : List.Forall₂ (fun p p' => p'.length = p.length ∧ width p' = width p) parts parts')
    (w : Window) : w.scroll width prompt columns cursor parts' =
      w.scroll width prompt columns cursor parts := by
  induction h generalizing w with
  | nil => rfl
  | cons hpart _ ih => simp only [scroll, hpart.1, hpart.2, ih]

/-- Clusters of the same lengths and widths are left out alike at the end. -/
theorem trim_congr
    (h : List.Forall₂ (fun p p' => p'.length = p.length ∧ width p' = width p) parts parts')
    (w : Window) : w.trim width prompt columns cursor parts' =
      w.trim width prompt columns cursor parts := by
  induction h generalizing w with
  | nil => rfl
  | cons hpart _ ih => simp only [trim, hpart.1, hpart.2, ih]

end Window

namespace CharLikeness

variable {r : CharLikeness}

namespace Texts

variable {t u : Text} (h : r.Texts t u)

include h

theorem clusterCount_eq : clusterCount u = clusterCount t := by
  rw [h.spells.1.ownClusters.count, h.spells.2.ownClusters.count, h.length_eq]

private theorem content_eq : content true u = content true t := by
  simp only [content, if_true, h.clusterCount_eq]

theorem contentWidth_eq : contentWidth true u = contentWidth true t := by
  simp only [contentWidth, if_true, h.clusterCount_eq]

theorem slice (w : Window) : r.Texts (w.slice t) (w.slice u) :=
  List.forall₂_drop w.start (h.take w.stop)

/-- The clusters of texts that are alike are as long. -/
theorem clusters {width : Text → Nat} (hwidth : ∀ p p', width p' = width p) :
    List.Forall₂ (fun p p' => p'.length = p.length ∧ width p' = width p) (clusters t)
      (Typeline.clusters u) := by
  rw [h.spells.1.ownClusters, h.spells.2.ownClusters, List.forall₂_map_left_iff,
    List.forall₂_map_right_iff]
  exact List.Forall₂.imp (fun _ _ _ => ⟨rfl, hwidth _ _⟩) h

end Texts

namespace Lines

variable {l l' : Line} (h : r.Lines l l')

include h

private theorem cursor_eq : l'.cursor = l.cursor := h.before.byteLength_eq

/-- The cluster before the cursor takes as many bytes. -/
theorem backwardLength_eq :
    backwardLength l'.before l'.after = backwardLength l.before l.after := by
  obtain ⟨before, after, capacity⟩ := l
  obtain ⟨before', after', capacity'⟩ := l'
  obtain ⟨hbefore, hafter, hcapacity⟩ := h
  have hspells := hafter.spells
  cases hbefore with
  | nil => rfl
  | cons hc hbefore =>
    have hrest := Texts.spells hbefore
    have hbytes := Texts.byteLength_eq hbefore
    simp only [backwardLength, Alphabet.backward_cons (r.mem hc).1 hrest.1 hspells.1,
      Alphabet.backward_cons (r.mem hc).2 hrest.2 hspells.2, byteLength_cons, hbytes,
      r.utf8Size_eq hc]

end Lines

end CharLikeness

namespace LineView

variable {r : CharLikeness} {v : LineView} {l : Line} (hmasked : v.masked = true)
  (h : r.Lines v.line l)

include hmasked h

private theorem usedWidth_eq_of_masked : { v with line := l }.usedWidth = v.usedWidth := by
  simp only [usedWidth, hmasked, h.text.contentWidth_eq]

private theorem cursorWidth_eq_of_masked : { v with line := l }.cursorWidth = v.cursorWidth := by
  simp only [cursorWidth, hmasked, h.textBefore.contentWidth_eq]

/-- **The same part of a masked line is shown.** -/
theorem window_eq_of_masked : { v with line := l }.window = v.window := by
  have hwhole : { v with line := l }.wholeWindow = v.wholeWindow := by
    simp only [wholeWindow, hmasked, h.text.length_eq, h.textBefore.contentWidth_eq,
      h.text.contentWidth_eq]
  have hwidth (p p' : Text) : v.shownWidth p' = v.shownWidth p := by
    simp only [shownWidth, hmasked, if_true]
  have hparts := h.text.clusters hwidth
  have hcursor : l.before.length = v.line.before.length := h.before.length_eq
  have hshown : { v with line := l }.shownWidth = v.shownWidth := rfl
  have hcolumns : { v with line := l }.width = v.width := rfl
  simp only [window, hwhole, hshown, hcolumns, hcursor]
  rw [Window.scroll_congr _ _ _ hparts, Window.trim_congr _ _ _ (List.rel_reverse hparts)]

variable (hhinter : v.hinter = none)

include hhinter

/-- **The same text is written for masked lines that are alike**, and the same is remembered. -/
theorem draw_eq_of_masked (state : DrawState) (mode : RefreshMode) :
    { v with line := l }.draw state mode = v.draw state mode := by
  have hcontent {t u : Text} (htexts : r.Texts t u) :
      content v.masked u = content v.masked t := by
    rw [hmasked, htexts.content_eq]
  have hwindow := window_eq_of_masked hmasked h
  have hused := usedWidth_eq_of_masked hmasked h
  have hcursor := cursorWidth_eq_of_masked hmasked h
  have hhint : { v with line := l }.hintPart = v.hintPart := by
    simp only [hintPart, hhinter]
  have hwidth : { v with line := l }.width = v.width := rfl
  have hrow : { v with line := l }.drawRow state mode = v.drawRow state mode := by
    simp only [drawRow, hwindow, hhint, hwidth, hcontent (h.text.slice v.window)]
  have hrows : { v with line := l }.drawRows state mode = v.drawRows state mode := by
    simp only [drawRows, hused, hcursor, hhint, hwidth, hcontent h.text, h.before.isEmpty_eq,
      h.atEnd_eq, h.cursor_eq]
  simp only [draw, hrow, hrows]

end LineView

end Typeline
