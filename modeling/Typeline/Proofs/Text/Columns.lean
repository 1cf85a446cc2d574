import Mathlib.Algebra.GroupWithZero.Nat
import Typeline.Proofs.Text.Segmentation
import Typeline.Text.Width

/-!
# Columns of a text and of its clusters

A text takes as many columns as its clusters together, also when all of its characters are ASCII
characters and the clusters are not looked at. Counting is not as even: a text of ASCII characters
counts a carriage return and the line feed after it as two clusters, although they form one.

## Main definitions

* `columnsOf` : the columns of a list of clusters.

## Main results

* `textWidth_eq` : the columns of a text are those of its clusters.
* `length_clusters_le` : a text has at most as many clusters as are counted.
* `textWidth_le_byteLength` : a text takes at most as many columns as it has bytes.
-/

namespace Typeline

/-- The columns of a list of clusters, each of which is counted by `width`. -/
def columnsOf (width : Text → Nat) (parts : List Text) : Nat := (parts.map width).sum

section ColumnsOf

variable (width : Text → Nat)

@[simp] theorem columnsOf_nil : columnsOf width [] = 0 := rfl

@[simp] theorem columnsOf_cons (part : Text) (parts : List Text) :
    columnsOf width (part :: parts) = width part + columnsOf width parts := by
  rw [columnsOf, List.map_cons, List.sum_cons]
  rfl

@[simp] theorem columnsOf_append (parts parts' : List Text) :
    columnsOf width (parts ++ parts') = columnsOf width parts + columnsOf width parts' := by
  rw [columnsOf, List.map_append, List.sum_append]
  rfl

@[simp] theorem columnsOf_reverse (parts : List Text) :
    columnsOf width parts.reverse = columnsOf width parts := by
  rw [columnsOf, List.map_reverse, List.sum_reverse]
  rfl

end ColumnsOf

/-! ### ASCII characters -/

private theorem isZeroWidth_of_ascii {c : Char} (h : c.toNat < 0x80) : isZeroWidth c = false := by
  have hmodifier : isEmojiModifier c = false := by
    simp only [isEmojiModifier, Bool.and_eq_false_iff, decide_eq_false_iff_not]
    omega
  have hglyph : glyphWidth c = 1 := by
    rw [glyphWidth]
    exact if_pos (by omega)
  rw [isZeroWidth, hmodifier, hglyph, Bool.and_eq_false_iff]
  exact Or.inr rfl

private theorem breakClass_of_ascii {c : Char} (h : c.toNat < 0x80) :
    c = '\r' ∧ breakClass c = .carriageReturn ∨ c = '\n' ∧ breakClass c = .lineFeed ∨
      breakClass c = .control ∨ breakClass c = .other := by
  rw [breakClass, if_pos h]
  by_cases hr : c = '\r'
  · exact Or.inl ⟨hr, if_pos hr⟩
  · rw [if_neg hr]
    split
    · next hn => exact Or.inr (Or.inl ⟨hn, rfl⟩)
    · split
      · exact Or.inr (Or.inr (Or.inl rfl))
      · exact Or.inr (Or.inr (Or.inr rfl))

/-- Two ASCII characters are only joined if they are carriage return and line feed. -/
theorem eq_lineEnd_of_not_isBoundary {c d : Char} {before after : List Char} (hc : c.toNat < 0x80)
    (hd : d.toNat < 0x80) (h : isBoundary (c :: before) (d :: after) = false) :
    c = '\r' ∧ d = '\n' := by
  have hjoiner : (c != joiner) = true := by
    rw [bne_iff_ne]
    rintro rfl
    revert hc
    decide
  rw [isBoundary, isZeroWidth_of_ascii hd, hjoiner] at h
  rcases breakClass_of_ascii hc with ⟨hr, hleft⟩ | ⟨-, hleft⟩ | hleft | hleft <;>
    rcases breakClass_of_ascii hd with ⟨-, hright⟩ | ⟨hn, hright⟩ | hright | hright <;>
    rw [hleft, hright] at h
  case inl.inr.inl => exact ⟨hr, hn⟩
  all_goals exact absurd h (by simp [splits])

/-- No cluster of ASCII characters takes more than one column. -/
theorem countP_le_one_of_mem_clusters {before after : List Char} (hafter : isAscii after = true)
    {cluster : Text} (h : cluster ∈ clustersAfter before after) :
    cluster.countP (fun c => !isAsciiControl c) ≤ 1 := by
  induction after generalizing before cluster with
  | nil => exact absurd h List.not_mem_nil
  | cons c after ih =>
    rw [isAscii, List.all_cons, Bool.and_eq_true, decide_eq_true_eq] at hafter
    have ih' := @ih (c :: before) hafter.2
    rw [clustersAfter] at h
    by_cases hboundary : isBoundary (c :: before) after = true
    · rw [if_pos hboundary] at h
      rcases List.mem_cons.mp h with rfl | h
      · exact List.countP_le_length
      · exact ih' h
    · rw [if_neg hboundary] at h
      cases after with
      | nil => exact absurd (isBoundary_nil_right _) hboundary
      | cons d after =>
        have hd : d.toNat < 0x80 := by
          have := hafter.2
          rw [List.all_cons, Bool.and_eq_true, decide_eq_true_eq] at this
          exact this.1
        obtain ⟨hc, -⟩ := eq_lineEnd_of_not_isBoundary hafter.1 hd (by simpa using hboundary)
        cases hrest : clustersAfter (c :: before) (d :: after) with
        | nil => exact absurd hrest (clustersAfter_ne_nil _ _ _)
        | cons first rest =>
          rw [hrest] at h ih'
          rcases List.mem_cons.mp h with rfl | h
          · subst hc
            rw [List.countP_cons_of_neg (by decide)]
            exact ih' List.mem_cons_self
          · exact ih' (List.mem_cons_of_mem _ h)

private theorem isAscii_of_mem_flatten {parts : List Text} (h : isAscii parts.flatten = true)
    {part : Text} (hpart : part ∈ parts) : isAscii part = true := by
  rw [isAscii, List.all_eq_true] at h ⊢
  exact fun c hc => h c (List.mem_flatten_of_mem hpart hc)

/-! ### Columns and clusters of a text -/

/-- **Columns of a text.** They are those of its clusters. -/
theorem textWidth_eq (t : Text) : textWidth t = columnsOf clusterWidth (clusters t) := by
  rw [textWidth]
  by_cases h : isAscii t = true
  · rw [if_pos h]
    have hwidth : ∀ parts : List Text, (∀ cluster ∈ parts, isAscii cluster = true ∧
        cluster.countP (fun c => !isAsciiControl c) ≤ 1) →
        parts.flatten.countP (fun c => !isAsciiControl c) = columnsOf clusterWidth parts := by
      intro parts
      induction parts with
      | nil => exact fun _ => rfl
      | cons cluster parts ih =>
        intro hparts
        obtain ⟨hascii, hcount⟩ := hparts cluster List.mem_cons_self
        rw [List.flatten_cons, List.countP_append, columnsOf_cons, clusterWidth, if_pos hascii,
          ih fun cluster hcluster => hparts cluster (List.mem_cons_of_mem _ hcluster)]
        omega
    have hparts := hwidth (clusters t) fun cluster hcluster =>
      ⟨isAscii_of_mem_flatten (by rwa [flatten_clusters]) hcluster,
        countP_le_one_of_mem_clusters h hcluster⟩
    rwa [flatten_clusters] at hparts
  · rw [if_neg h]
    induction clusters t with
    | nil => rfl
    | cons cluster parts ih => rw [List.foldr_cons, ih, columnsOf_cons]

theorem length_le_length_flatten {parts : List Text} (h : ∀ part ∈ parts, part ≠ []) :
    parts.length ≤ parts.flatten.length := by
  induction parts with
  | nil => exact Nat.le_refl 0
  | cons part parts ih =>
    have hpart := List.length_pos_iff.mpr (h part List.mem_cons_self)
    have hparts := ih fun part hmem => h part (List.mem_cons_of_mem _ hmem)
    rw [List.flatten_cons, List.length_append, List.length_cons]
    omega

/-- A text has at most as many clusters as are counted. -/
theorem length_clusters_le (t : Text) : (clusters t).length ≤ clusterCount t := by
  rw [clusterCount]
  split
  · have h := length_le_length_flatten fun _ => ne_nil_of_mem_clusters (t := t)
    rwa [flatten_clusters] at h
  · exact Nat.le_refl _

/-! ### Columns and bytes -/

theorem length_le_byteLength (t : Text) : t.length ≤ byteLength t := by
  induction t with
  | nil => exact Nat.le_refl 0
  | cons c t ih =>
    have hc := c.utf8Size_pos
    rw [List.length_cons, byteLength_cons]
    omega

theorem eq_nil_of_byteLength_eq_zero {t : Text} (h : byteLength t = 0) : t = [] :=
  List.length_eq_zero_iff.mp (Nat.le_zero.mp (h ▸ length_le_byteLength t))

theorem byteLength_pos {t : Text} (h : t ≠ []) : 0 < byteLength t :=
  Nat.pos_of_ne_zero fun hzero => h (eq_nil_of_byteLength_eq_zero hzero)

/-- A character outside ASCII has two bytes or more. -/
theorem two_le_byteLength {t : Text} (h : isAscii t = false) : 2 ≤ byteLength t := by
  rw [isAscii, List.all_eq_false] at h
  obtain ⟨c, hc, hhigh⟩ := h
  obtain ⟨before, after, rfl⟩ := List.mem_iff_append.mp hc
  have hsize : 2 ≤ c.utf8Size := by
    have hone : c.utf8Size ≠ 1 := by
      rw [ne_eq, Char.utf8Size_eq_one_iff, UInt32.le_iff_toNat_le]
      simp only [decide_eq_true_eq] at hhigh
      exact fun hle => hhigh (Nat.lt_succ_of_le hle)
    have := c.utf8Size_pos
    omega
  rw [byteLength_append, byteLength_cons]
  omega

theorem clusterWidth_le_byteLength (cluster : Text) :
    clusterWidth cluster ≤ byteLength cluster := by
  cases hascii : isAscii cluster with
  | true =>
    rw [clusterWidth, if_pos hascii]
    exact Nat.le_trans (Nat.min_le_right _ _)
      (Nat.le_trans List.countP_le_length (length_le_byteLength cluster))
  | false => exact Nat.le_trans (clusterWidth_le_two cluster) (two_le_byteLength hascii)

/-- A text takes at most as many columns as it has bytes. -/
theorem textWidth_le_byteLength (t : Text) : textWidth t ≤ byteLength t := by
  have hparts (parts : List Text) : columnsOf clusterWidth parts ≤ byteLength parts.flatten := by
    induction parts with
    | nil => exact Nat.le_refl 0
    | cons part parts ih =>
      rw [columnsOf_cons, List.flatten_cons, byteLength_append]
      exact Nat.add_le_add (clusterWidth_le_byteLength part) ih
  rw [textWidth_eq]
  have hall := hparts (clusters t)
  rwa [flatten_clusters] at hall

/-- A text has at most as many clusters as it has bytes. -/
theorem clusterCount_le_byteLength (t : Text) : clusterCount t ≤ byteLength t := by
  refine Nat.le_trans ?_ (length_le_byteLength t)
  rw [clusterCount]
  split
  · exact Nat.le_refl _
  · have h := length_le_length_flatten fun _ => ne_nil_of_mem_clusters (t := t)
    rwa [flatten_clusters] at h

end Typeline
