import Typeline.Proofs.Edit.ByteLine
import Typeline.Proofs.Text.Parts

/-!
# Replacing a line

A text that replaces a line is kept as far as whole clusters of it fit into the capacity. Where the
text is held by byte offsets, the end of what is kept is found by going down byte by byte from the
capacity or the end of the text, through characters and clusters of any length, to the first border
of clusters on the way. This is the greatest border of the uncut text within the capacity, so it
lies between two characters, and the next cluster would not fit. What is kept fits as it is, and
replacing the line by it changes nothing.

## Main results

* `isBorderAt_of_clusters_eq` : the borders between two clusters of a list.
* `Line.setText_eq` : what replaces a line, in clusters.
* `Line.setText_keeps_clusters` : what replaces a line, and the way to its end.
-/

namespace Typeline

/-- Some clusters of a text end at a border. -/
theorem isBorderAt_of_clusters_eq {t : Text} {parts parts' : List Text}
    (h : clusters t = parts ++ parts') : isBorderAt t (byteLength parts.flatten) = true := by
  have hboundary := isBoundary_of_clustersAfter_eq (isBoundary_nil_left t) h
  have hsplit : splitAtByte? (byteLength parts.flatten) t =
      some (parts.flatten.reverse, parts'.flatten) := by
    refine splitAtByte?_eq_some.mpr ⟨?_, byteLength_reverse _⟩
    rw [List.reverse_reverse, ← List.flatten_append, ← h, flatten_clusters]
  rw [List.append_nil] at hboundary
  rw [isBorderAt, holdsAt_of_splitAtByte? hsplit, hboundary]

namespace Line

variable (l : Line) (t : Text)

/-- What replaces a line are clusters of the text, up to the greatest border that fits. -/
theorem setText_eq : ∃ kept dropped, clusters t = kept ++ dropped ∧
    l.setText t = ⟨kept.flatten.reverse, [], l.capacity⟩ ∧
      IsGreatest {o | o ≤ l.capacity ∧ isBorderAt t o = true} (byteLength kept.flatten) := by
  obtain ⟨⟨rest, hsplit⟩, hgreatest⟩ := isGreatest_setText l t
  have hborder := hgreatest.1.2
  rw [isBorderAt, holdsAt_of_splitAtByte? hsplit] at hborder
  have htext := (splitAtByte?_eq_some.mp hsplit).1
  have hkept : (clusters (l.setText t).before.reverse).flatten.reverse = (l.setText t).before := by
    rw [flatten_clusters, List.reverse_reverse]
  refine ⟨clusters (l.setText t).before.reverse, clusters rest, ?_, ?_, ?_⟩
  · rw [← clusters_append_of_isBoundary (by rwa [List.reverse_reverse]), htext]
  · rw [hkept]
    rfl
  · rwa [← byteLength_reverse, hkept]

/-- What replaces a line fits, so it is kept as a whole if it replaces the line once more. -/
theorem setText_text_setText : (l.setText t).setText (l.setText t).text = l.setText t := by
  have hfits := byteLength_cut_le l.capacity t
  rw [text_setText, setText_eq_cut l t, setText_eq_cut, cut_of_le hfits]

/-- The cluster behind the greatest border that fits does not fit. -/
theorem capacity_lt_of_isGreatest {capacity : Nat} {t cluster : Text} {kept rest : List Text}
    (h : clusters t = kept ++ cluster :: rest)
    (hgreatest : IsGreatest {o | o ≤ capacity ∧ isBorderAt t o = true} (byteLength kept.flatten)) :
    capacity < byteLength kept.flatten + byteLength cluster := by
  have hmem : cluster ∈ clusters t := by
    rw [h]
    exact List.mem_append_right kept List.mem_cons_self
  have hborder : isBorderAt t (byteLength kept.flatten + byteLength cluster) = true := by
    rw [List.append_cons] at h
    have hend := isBorderAt_of_clusters_eq h
    rwa [List.flatten_append, List.flatten_singleton, byteLength_append] at hend
  by_contra hfits
  have hle := hgreatest.2 ⟨Nat.le_of_not_lt hfits, hborder⟩
  have hpos := byteLength_pos (ne_nil_of_mem_clusters hmem)
  omega

/-- Going down from the capacity or the end of a text ends at the greatest border that fits. -/
theorem borderUpTo?_of_isGreatest (cuts : (t : Text) → PlainCuts t) {capacity g : Nat}
    (h : IsGreatest {o | o ≤ capacity ∧ isBorderAt t o = true} g) (extra : Nat) :
    ByteLine.borderUpTo? cuts t (min (byteLength t) capacity + extra + 1)
      (min (byteLength t) capacity) = some g := by
  obtain ⟨before, after, hsplit, -⟩ := exists_splitAtByte?_of_holdsAt h.1.2
  have hlength := byteLength_of_splitAtByte? hsplit
  refine ByteLine.borderUpTo?_eq cuts ⟨⟨?_, h.1.2⟩, fun o ho => ?_⟩ (Nat.le_add_right _ _)
  · exact Nat.le_min.mpr ⟨by omega, h.1.1⟩
  · exact h.2 ⟨Nat.le_trans ho.1 (Nat.min_le_right _ _), ho.2⟩

/-- **Replacing a line.** The line keeps clusters of the text up to the greatest border that is
within the capacity, with the cursor at its end; the next cluster would not fit, and nothing is kept
only if the first one does not. By byte offsets, going down from the capacity or the end of the text
ends at this border, within one round more than there are bytes to go down, and the cut there
succeeds, whatever the line was before. Replacing the line once more by what it keeps changes
nothing. -/
theorem setText_keeps_clusters (cuts : (t : Text) → PlainCuts t) :
    ∃ kept dropped, clusters t = kept ++ dropped ∧
      l.setText t = ⟨kept.flatten.reverse, [], l.capacity⟩ ∧
      IsGreatest {o | o ≤ l.capacity ∧ isBorderAt t o = true} (byteLength kept.flatten) ∧
      (∀ cluster rest, dropped = cluster :: rest →
        l.capacity < byteLength kept.flatten + byteLength cluster) ∧
      (∀ first rest, clusters t = first :: rest → (kept = [] ↔ l.capacity < byteLength first)) ∧
      (∀ extra, ByteLine.borderUpTo? cuts t (min (byteLength t) l.capacity + extra + 1)
        (min (byteLength t) l.capacity) = some (byteLength kept.flatten)) ∧
      cut? t (byteLength kept.flatten) = some (kept.flatten, dropped.flatten) ∧
      (∀ s o, ByteLine.setText? cuts ⟨s, o, l.capacity⟩ t =
        some ⟨kept.flatten, byteLength kept.flatten, l.capacity⟩) ∧
      (l.setText t).setText kept.flatten = l.setText t ∧
      ByteLine.setText? cuts (l.setText t).byOffsets kept.flatten =
        some (l.setText t).byOffsets := by
  obtain ⟨kept, dropped, hclusters, hline, hgreatest⟩ := setText_eq l t
  have hsplit : t = kept.flatten ++ dropped.flatten := by
    rw [← List.flatten_append, ← hclusters, flatten_clusters]
  have htext : (l.setText t).text = kept.flatten := by
    rw [hline, text, List.reverse_reverse, List.append_nil]
  have hoffsets : (l.setText t).byOffsets =
      ⟨kept.flatten, byteLength kept.flatten, l.capacity⟩ := by
    rw [byOffsets, htext, hline, cursor, byteLength_reverse]
  have hnext {cluster : Text} {rest : List Text} (hdropped : dropped = cluster :: rest) :
      l.capacity < byteLength kept.flatten + byteLength cluster :=
    capacity_lt_of_isGreatest (hdropped ▸ hclusters) hgreatest
  have hagain := setText_text_setText l t
  rw [htext] at hagain
  refine ⟨kept, dropped, hclusters, hline, hgreatest, fun _ _ => hnext, fun first rest hfirst => ?_,
    borderUpTo?_of_isGreatest t cuts hgreatest, ?_, fun s o => ?_, hagain, ?_⟩
  · constructor
    · rintro rfl
      have hlarge := hnext (hclusters.symm.trans hfirst)
      rwa [List.flatten_nil, byteLength_nil, Nat.zero_add] at hlarge
    · intro hlarge
      cases kept with
      | nil => rfl
      | cons part kept =>
        obtain ⟨rfl, -⟩ := List.cons.inj (hfirst.symm.trans hclusters)
        have hfits := hgreatest.1.1
        rw [List.flatten_cons, byteLength_append] at hfits
        omega
  · conv => lhs; rw [hsplit]
    exact cut?_append _ _
  · -- The outcome does not depend on the line before.
    rw [← hoffsets, ← ByteLine.setText?_eq cuts l t]
    rfl
  · rw [ByteLine.setText?_eq, hagain]

/-- Two letters, a flag of two characters of four bytes each, and a letter. -/
def flaggedText : Text := ['a', 'b', '🇩', '🇪', 'c']

/-- In a line of eight bytes, with the cuts that the rules of Unicode allow: the way down from there
goes through both characters of the flag to its start. -/
theorem setText_keeps_clusters_flaggedText :
    (empty 8).setText flaggedText = ⟨['b', 'a'], [], 8⟩ ∧
      IsGreatest {o | o ≤ 8 ∧ isBorderAt flaggedText o = true} 2 ∧
      ByteLine.borderUpTo? PlainCuts.ofRules flaggedText 9 8 = some 2 ∧
      ByteLine.setText? PlainCuts.ofRules ⟨['x'], 1, 8⟩ flaggedText = some ⟨['a', 'b'], 2, 8⟩ ∧
      ((empty 8).setText flaggedText).setText ['a', 'b'] = (empty 8).setText flaggedText := by
  obtain ⟨kept, dropped, -, hline, hgreatest, -, -, hway, -, hoffsets, hagain, -⟩ :=
    setText_keeps_clusters (empty 8) flaggedText PlainCuts.ofRules
  have hab : (empty 8).setText flaggedText = ⟨['b', 'a'], [], 8⟩ := by decide +kernel
  have hkept : kept.flatten = ['a', 'b'] :=
    List.reverse_eq_iff.mp (congrArg Line.before (hline.symm.trans hab))
  rw [hkept] at hgreatest hway hagain
  simp only [hkept] at hoffsets
  exact ⟨hab, hgreatest, hway 0, hoffsets ['x'] 1, hagain⟩

end Line

end Typeline
