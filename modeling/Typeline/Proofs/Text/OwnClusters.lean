import Typeline.Proofs.Text.Parts

/-!
# Texts of clusters of one character

In a text in which every character is a cluster of its own, characters, clusters and positions
between clusters are the same thing. Such a text may be cut anywhere, and its parts are texts of
that kind, since a part between two borders has the clusters that it has in the whole text.

## Main definitions

* `OwnClusters` : every character is a cluster of its own.
* `PrintsAlone` : every character is a cluster of its own that takes room on a terminal.

## Main results

* `ownClusters_iff` : every position lies between two clusters.
* `OwnClusters.left`, `OwnClusters.right` : parts of such a text.
* `clusterCount_eq_length` : the number of clusters of a text.
* `PrintsAlone.width` : the columns of such a text.
-/

namespace Typeline

/-! ### Clusters of one character -/

/-- Every character of a text is a cluster of its own. -/
def OwnClusters (t : Text) : Prop := clusters t = t.map fun c => [c]

instance (t : Text) : Decidable (OwnClusters t) := inferInstanceAs (Decidable (_ = _))

theorem clustersAfter_eq_map_iff (before : List Char) (c : Char) (after : List Char) :
    clustersAfter before (c :: after) = (c :: after).map (fun c => [c]) ↔
      isBoundary (c :: before) after = true ∧
        clustersAfter (c :: before) after = after.map fun c => [c] := by
  rw [clustersAfter, List.map_cons]
  by_cases h : isBoundary (c :: before) after = true
  · rw [if_pos h]
    exact ⟨fun heq => ⟨h, (List.cons.inj heq).2⟩, fun heq => by rw [heq.2]⟩
  · rw [if_neg h]
    refine ⟨fun heq => ?_, fun heq => absurd heq.1 h⟩
    -- The first cluster has a second character.
    cases hrest : clustersAfter (c :: before) after with
    | nil =>
      cases after with
      | nil => exact absurd (isBoundary_nil_right _) h
      | cons d after => exact absurd hrest (clustersAfter_ne_nil _ _ _)
    | cons first rest =>
      rw [hrest] at heq
      have hnil : first = [] := (List.cons.inj (List.cons.inj heq).1).2
      have hmem : first ∈ clustersAfter (c :: before) after := hrest ▸ List.mem_cons_self
      exact absurd hnil (ne_nil_of_mem_clustersAfter hmem)

theorem clustersAfter_append_eq_map (before : List Char) {s t : List Char}
    (h : clustersAfter before (s ++ t) = (s ++ t).map fun c => [c]) :
    clustersAfter before s = s.map (fun c => [c]) ∧
      (s ≠ [] → isBoundary (s.reverse ++ before) t = true) := by
  induction s generalizing before with
  | nil => exact ⟨rfl, fun hs => absurd rfl hs⟩
  | cons c s ih =>
    rw [List.cons_append, clustersAfter_eq_map_iff] at h
    obtain ⟨hs, ht⟩ := ih (c :: before) h.2
    rw [clustersAfter_eq_map_iff, List.reverse_cons, List.append_assoc, List.singleton_append]
    cases s with
    | nil => exact ⟨⟨isBoundary_nil_right _, rfl⟩, fun _ => h.1⟩
    | cons d s =>
      refine ⟨⟨?_, hs⟩, fun _ => ht (List.cons_ne_nil d s)⟩
      rw [← isBoundary_append_congr _ (List.cons_ne_nil d s) t]
      exact h.1

namespace OwnClusters

/-- Every position of such a text lies between two clusters. -/
theorem isBoundary {s t : Text} (h : OwnClusters (s ++ t)) :
    Typeline.isBoundary s.reverse t = true := by
  by_cases hs : s = []
  · subst hs
    exact isBoundary_nil_left t
  · have hboundary := (clustersAfter_append_eq_map [] h).2 hs
    rwa [List.append_nil] at hboundary

theorem left {s t : Text} (h : OwnClusters (s ++ t)) : OwnClusters s :=
  (clustersAfter_append_eq_map [] h).1

end OwnClusters

/-! ### Position by position -/

/-- A text is cut into its characters if every position, seen from any start, is a border. -/
theorem clustersAfter_eq_map_of_isBoundary (before : List Char) {t : Text}
    (h : ∀ s u, s ++ u = t → s ≠ [] → isBoundary (s.reverse ++ before) u = true) :
    clustersAfter before t = t.map fun c => [c] := by
  induction t generalizing before with
  | nil => rfl
  | cons c t ih =>
    rw [clustersAfter_eq_map_iff]
    refine ⟨h [c] t rfl (List.cons_ne_nil c []), ih (c :: before) fun s u htext hs => ?_⟩
    have hlater := h (c :: s) u (by rw [List.cons_append, htext]) (List.cons_ne_nil c s)
    rwa [List.reverse_cons, List.append_assoc, List.singleton_append] at hlater

/-- Every character is a cluster of its own if and only if every position lies between two
clusters. -/
theorem ownClusters_iff {t : Text} :
    OwnClusters t ↔ ∀ s u, s ++ u = t → isBoundary s.reverse u = true := by
  constructor
  · rintro h s u rfl
    exact h.isBoundary
  · intro h
    refine clustersAfter_eq_map_of_isBoundary [] fun s u htext _ => ?_
    rw [List.append_nil]
    exact h s u htext

namespace OwnClusters

/-- The end of such a text is such a text. -/
theorem right {s t : Text} (h : OwnClusters (s ++ t)) : OwnClusters t := by
  have hcut := clusters_append_of_isBoundary h.isBoundary
  rw [show clusters (s ++ t) = _ from h, show clusters s = _ from h.left, List.map_append] at hcut
  exact (List.append_cancel_left hcut).symm

theorem width {t : Text} (h : OwnClusters t) :
    textWidth t = (t.map fun c => clusterWidth [c]).sum := by
  rw [textWidth_eq, columnsOf, h, List.map_map]
  rfl

theorem count {t : Text} (h : OwnClusters t) : clusterCount t = t.length := by
  rw [clusterCount]
  split
  · rfl
  · rw [h, List.length_map]

end OwnClusters

/-- **Counting clusters.** A text without a carriage return before a line feed has as many clusters
as are counted. -/
theorem clusterCount_eq_length {t : Text} (h : ¬['\r', '\n'] <:+: t) :
    clusterCount t = (clusters t).length := by
  rw [clusterCount]
  split
  · next hascii =>
    suffices hown : OwnClusters t by rw [hown, List.length_map]
    refine ownClusters_iff.mpr fun s u hsu => ?_
    rw [isAscii, List.all_eq_true] at hascii
    cases hs : s.reverse with
    | nil => exact isBoundary_nil_left u
    | cons c before =>
      cases u with
      | nil => exact isBoundary_nil_right _
      | cons d after =>
        rw [← Bool.not_eq_false]
        intro hinside
        rw [List.reverse_eq_cons_iff] at hs
        subst hs hsu
        have hc : c.toNat < 0x80 := by simpa using hascii c (by simp)
        have hd : d.toNat < 0x80 := by simpa using hascii d (by simp)
        obtain ⟨rfl, rfl⟩ := eq_lineEnd_of_not_isBoundary hc hd hinside
        exact h ⟨before.reverse, after, by simp⟩
  · rfl

/-! ### Columns of one character -/

theorem widthAlone_fst (c : Char) : (widthAlone c).1 = glyphWidth c := by
  simp only [widthAlone, apply_ite Prod.fst, ite_self]

theorem sequenceWidth_singleton {c : Char} (h : 0xA0 < c.toNat) :
    sequenceWidth [c] = glyphWidth c := by
  have hstep : (widthBefore c .plain).1 = glyphWidth c := by
    rw [widthBefore, if_neg (by simp [Sequel.selector?])]
    simp only [Sequel.selector?, reduceCtorEq, if_false]
    rw [if_neg (by omega), if_pos trivial, widthAlone_fst]
  change ((0 : Int) + (widthBefore c .plain).1).toNat = _
  rw [hstep, Int.zero_add, Int.toNat_natCast]

/-- A character that a terminal prints takes the same columns as a cluster of its own. -/
theorem clusterWidth_singleton {c : Char} (h : 0 < charWidth c) :
    clusterWidth [c] = charWidth c := by
  have hprinted : ¬((isControl c || isZeroWidth c) = true) := by
    intro hc
    rw [charWidth, if_pos hc] at h
    exact Nat.lt_irrefl 0 h
  rw [charWidth, if_neg hprinted]
  rw [Bool.or_eq_true, not_or, isControl, Bool.or_eq_true, Bool.and_eq_true,
    decide_eq_true_eq, decide_eq_true_eq, decide_eq_true_eq] at hprinted
  obtain ⟨hcontrol, -⟩ := hprinted
  by_cases hwide : 0xA0 < c.toNat
  · have hascii : ¬(isAscii [c] = true) := by
      simp only [isAscii, List.all_cons, List.all_nil, Bool.and_true, decide_eq_true_eq]
      omega
    rw [clusterWidth, if_neg hascii, sequenceWidth_singleton hwide]
  · have hglyph : glyphWidth c = 1 := by
      rw [glyphWidth]
      exact if_pos (by omega)
    rw [hglyph, clusterWidth]
    by_cases hascii : isAscii [c] = true
    · have hshown : isAsciiControl c = false := by
        simp only [isAsciiControl, Bool.or_eq_false_iff, decide_eq_false_iff_not,
          beq_eq_false_iff_ne]
        omega
      rw [if_pos hascii, List.countP_singleton, hshown]
      rfl
    · -- The only character left is the no-break space.
      have hspace : c = '\u00A0' := by
        simp only [isAscii, List.all_cons, List.all_nil, Bool.and_true, decide_eq_true_eq] at hascii
        have hc : c.toNat = 0xA0 := by omega
        exact Char.toNat_inj.mp hc
      subst hspace
      rfl

/-! ### Characters that a terminal prints -/

/-- Every character of a text is a cluster of its own, and a terminal prints it in one column at
least and in `limit` columns at most. -/
structure PrintsAlone (limit : Nat) (t : Text) : Prop where
  ownClusters : OwnClusters t
  charWidth_pos : ∀ c ∈ t, 0 < charWidth c
  charWidth_le : ∀ c ∈ t, charWidth c ≤ limit

private theorem printsAlone_iff {limit : Nat} {t : Text} : PrintsAlone limit t ↔
    OwnClusters t ∧ t.all (fun c => 0 < charWidth c && charWidth c ≤ limit) = true := by
  simp only [List.all_eq_true, Bool.and_eq_true, decide_eq_true_eq]
  constructor
  · exact fun h => ⟨h.ownClusters, fun c hc => ⟨h.charWidth_pos c hc, h.charWidth_le c hc⟩⟩
  · exact fun h => ⟨h.1, fun c hc => (h.2 c hc).1, fun c hc => (h.2 c hc).2⟩

instance (limit : Nat) (t : Text) : Decidable (PrintsAlone limit t) :=
  decidable_of_iff _ printsAlone_iff.symm

namespace PrintsAlone

variable {limit : Nat}

theorem left {s t : Text} (h : PrintsAlone limit (s ++ t)) : PrintsAlone limit s where
  ownClusters := h.ownClusters.left
  charWidth_pos c hc := h.charWidth_pos c (List.mem_append_left t hc)
  charWidth_le c hc := h.charWidth_le c (List.mem_append_left t hc)

theorem right {s t : Text} (h : PrintsAlone limit (s ++ t)) : PrintsAlone limit t where
  ownClusters := h.ownClusters.right
  charWidth_pos c hc := h.charWidth_pos c (List.mem_append_right s hc)
  charWidth_le c hc := h.charWidth_le c (List.mem_append_right s hc)

theorem mono {limit' : Nat} {t : Text} (h : PrintsAlone limit t) (hle : limit ≤ limit') :
    PrintsAlone limit' t where
  ownClusters := h.ownClusters
  charWidth_pos := h.charWidth_pos
  charWidth_le c hc := Nat.le_trans (h.charWidth_le c hc) hle

theorem width {t : Text} (h : PrintsAlone limit t) : textWidth t = (t.map charWidth).sum := by
  rw [h.ownClusters.width, List.map_congr_left fun c hc => clusterWidth_singleton
    (h.charWidth_pos c hc)]

end PrintsAlone

end Typeline
