import Typeline.Proofs.Text.Borders
import Typeline.Proofs.Text.OwnClusters

/-!
# Sums over the clusters of a text

A quantity that adds up wherever a text is cut between two of its clusters is the sum of what it is
for the clusters. The columns of a text are such a quantity, whether or not the text or one of its
parts is plain ASCII, whose columns are counted without a look at the clusters.

The count of the clusters is not. In a text of ASCII characters it is the number of characters, and
so each carriage return with a line feed behind it, which form one cluster, is counted as two.

## Main definitions

* `AddsUp` : a quantity that adds up at the borders of clusters.
* `lineEnds` : the number of carriage returns with a line feed behind them.

## Main results

* `AddsUp.eq_sum`, `AddsUp.eq_iff` : such a quantity is that of the clusters.
* `textWidth_eq_add` : the columns of a text and of its parts.
* `clusterCount_eq_add` : the count of the clusters and their number.
-/

namespace Typeline

/-- A quantity that adds up where a text is cut at a border of clusters. -/
structure AddsUp (f : Text → Nat) : Prop where
  nil : f [] = 0
  append : ∀ s t, isBoundary s.reverse t = true → f (s ++ t) = f s + f t

namespace AddsUp

variable {f g : Text → Nat}

theorem flatten (hf : AddsUp f) {parts : List Text} (hparts : clusters parts.flatten = parts) :
    f parts.flatten = (parts.map f).sum := by
  induction parts with
  | nil => exact hf.nil
  | cons part parts ih =>
    have hcut : clusters (part :: parts).flatten = [part] ++ parts := hparts
    have hborder := isBoundary_of_clustersAfter_eq (isBoundary_nil_left _) hcut
    rw [List.append_nil, List.flatten_singleton] at hborder
    rw [List.flatten_cons, hf.append part _ hborder, ih (clusters_flatten hcut).2, List.map_cons,
      List.sum_cons]

/-- It is the sum of what it is for the clusters. -/
theorem eq_sum (hf : AddsUp f) (t : Text) : f t = ((clusters t).map f).sum := by
  have hkept : clusters (clusters t).flatten = clusters t := by rw [flatten_clusters]
  have hall := hf.flatten hkept
  rwa [flatten_clusters] at hall

/-- Two such quantities agree up to every border if they agree for every cluster. -/
theorem eq_iff (hf : AddsUp f) (hg : AddsUp g) (t : Text) :
    (∀ s u, s ++ u = t → isBoundary s.reverse u = true → f s = g s) ↔
      ∀ cluster ∈ clusters t, f cluster = g cluster := by
  constructor
  · intro h cluster hmem
    obtain ⟨left, right, hparts⟩ := List.append_of_mem hmem
    -- The cluster is what lies between two borders.
    have hupto (parts parts' : List Text) (hcut : clusters t = parts ++ parts') :
        (parts.map f).sum = (parts.map g).sum := by
      have hborder := isBoundary_of_clustersAfter_eq (isBoundary_nil_left _) hcut
      rw [List.append_nil] at hborder
      have hsplit : parts.flatten ++ parts'.flatten = t := by
        rw [← List.flatten_append, ← hcut, flatten_clusters]
      have hkept := (clusters_flatten hcut).1
      rw [← hf.flatten hkept, ← hg.flatten hkept]
      exact h _ _ hsplit hborder
    have hleft := hupto left (cluster :: right) hparts
    have hboth := hupto (left ++ [cluster]) right (by simp [hparts])
    simp only [List.map_append, List.sum_append, List.map_cons, List.map_nil, List.sum_cons,
      List.sum_nil, hleft] at hboth
    omega
  · rintro h s u rfl hborder
    rw [hf.eq_sum, hg.eq_sum]
    refine congrArg List.sum (List.map_congr_left fun cluster hmem => h cluster ?_)
    rw [clusters_append_of_isBoundary hborder]
    exact List.mem_append_left _ hmem

end AddsUp

/-! ### Columns -/

theorem textWidth_append {s t : Text} (h : isBoundary s.reverse t = true) :
    textWidth (s ++ t) = textWidth s + textWidth t := by
  rw [textWidth_eq, clusters_append_of_isBoundary h, columnsOf_append, ← textWidth_eq,
    ← textWidth_eq]

/-- A cluster of a text is a cluster by itself. -/
theorem clusters_of_mem {t cluster : Text} (h : cluster ∈ clusters t) :
    clusters cluster = [cluster] := by
  obtain ⟨left, right, hparts⟩ := List.append_of_mem h
  have hright : clusters (cluster :: right).flatten = [cluster] ++ right :=
    (clusters_flatten hparts).2
  simpa using (clusters_flatten hright).1

theorem textWidth_of_mem_clusters {t cluster : Text} (h : cluster ∈ clusters t) :
    textWidth cluster = clusterWidth cluster := by
  rw [textWidth_eq, clusters_of_mem h, columnsOf_cons, columnsOf_nil, Nat.add_zero]

theorem addsUp_textWidth : AddsUp textWidth where
  nil := rfl
  append _ _ := textWidth_append

/-- **Widths add up.** A text is as wide as its clusters together, and as wide as the two parts into
which it is cut at a border. -/
theorem textWidth_eq_add (t : Text) :
    textWidth t = ((clusters t).map clusterWidth).sum ∧
      ∀ p before after, splitAtByte? p t = some (before, after) → isBorderAt t p = true →
        textWidth t = textWidth before.reverse + textWidth after := by
  refine ⟨textWidth_eq t, fun p before after hsplit hborder => ?_⟩
  rw [isBorderAt, holdsAt_of_splitAtByte? hsplit] at hborder
  obtain ⟨rfl, -⟩ := splitAtByte?_eq_some.mp hsplit
  exact textWidth_append (by rwa [List.reverse_reverse])

/-- A letter and a line end, all of them ASCII characters, before an accent and a flag. -/
def mixedText : Text := ['a', '\r', '\n', 'e', '\u0301', '🇫', '🇷']

theorem textWidth_eq_add_mixedText :
    splitAtByte? 3 mixedText = some (['\n', '\r', 'a'], ['e', '\u0301', '🇫', '🇷']) ∧
      isBorderAt mixedText 3 = true ∧
      textWidth mixedText = textWidth ['a', '\r', '\n'] + textWidth ['e', '\u0301', '🇫', '🇷'] ∧
      textWidth ['a', '\r', '\n'] = 1 ∧ textWidth ['e', '\u0301', '🇫', '🇷'] = 3 := by
  have hsplit : splitAtByte? 3 mixedText = some (['\n', '\r', 'a'], ['e', '\u0301', '🇫', '🇷']) :=
    splitAtByte?_eq_some.mpr ⟨rfl, rfl⟩
  have hborder : isBorderAt mixedText 3 = true := by
    rw [isBorderAt, holdsAt_of_splitAtByte? hsplit]
    decide +kernel
  have hsum := (textWidth_eq_add mixedText).2 3 _ _ hsplit hborder
  rw [show ['\n', '\r', 'a'].reverse = ['a', '\r', '\n'] from rfl] at hsum
  exact ⟨hsplit, hborder, hsum, by decide +kernel, by decide +kernel⟩

/-! ### The number of clusters -/

/-- The number of carriage returns with a line feed behind them. -/
def lineEnds : Text → Nat
  | c :: d :: t => (if c = '\r' ∧ d = '\n' then 1 else 0) + lineEnds (d :: t)
  | _ => 0

theorem lineEnds_eq_zero_iff (t : Text) : lineEnds t = 0 ↔ ¬['\r', '\n'] <:+: t := by
  induction t with
  | nil => simp [lineEnds]
  | cons c t ih =>
    cases t with
    | nil => simp [lineEnds, List.infix_cons_iff]
    | cons d t =>
      rw [lineEnds, Nat.add_eq_zero_iff, List.infix_cons_iff, not_or, ih]
      refine and_congr_left fun _ => ?_
      simp [eq_comm]

/-- Between two ASCII characters there is a border, unless they are carriage return and line
feed. -/
theorem isBoundary_of_ascii_iff {c d : Char} (hc : c.toNat < 0x80) (hd : d.toNat < 0x80)
    (before after : List Char) :
    isBoundary (c :: before) (d :: after) = true ↔ ¬(c = '\r' ∧ d = '\n') := by
  constructor
  · rintro h ⟨rfl, rfl⟩
    rw [isBoundary, Bool.and_eq_true] at h
    exact Bool.false_ne_true h.2
  · intro h
    rw [← Bool.not_eq_false]
    exact fun hinside => h (eq_lineEnd_of_not_isBoundary hc hd hinside)

/-- A character that is cut off from the next one is a cluster more. -/
theorem length_clustersAfter_cons (before : List Char) (c d : Char) (after : List Char) :
    (clustersAfter before (c :: d :: after)).length =
      (clustersAfter (c :: before) (d :: after)).length +
        (if isBoundary (c :: before) (d :: after) then 1 else 0) := by
  rw [clustersAfter]
  split
  · rfl
  · obtain ⟨first, rest, hrest⟩ :=
      List.exists_cons_of_ne_nil (clustersAfter_ne_nil (c :: before) d after)
    rw [hrest]
    rfl

private theorem length_clustersAfter_add_lineEnds {t : Text} (h : isAscii t = true)
    (before : List Char) : (clustersAfter before t).length + lineEnds t = t.length := by
  induction t generalizing before with
  | nil => rfl
  | cons c t ih =>
    rw [isAscii, List.all_cons, Bool.and_eq_true, decide_eq_true_eq] at h
    cases t with
    | nil =>
      rw [clustersAfter, isBoundary_nil_right, if_pos rfl]
      rfl
    | cons d t =>
      have hd : d.toNat < 0x80 := by simpa using (List.all_eq_true.mp h.2) d List.mem_cons_self
      have hborder := isBoundary_of_ascii_iff h.1 hd before t
      have hrest := ih h.2 (c :: before)
      rw [length_clustersAfter_cons, lineEnds, List.length_cons]
      by_cases hend : c = '\r' ∧ d = '\n'
      · rw [if_neg fun htrue => hborder.mp htrue hend, if_pos hend]
        omega
      · rw [if_pos (hborder.mpr hend), if_neg hend]
        omega

/-- **The count of the clusters.** It is their number, and in a text of ASCII characters one more
for each carriage return with a line feed behind it. -/
theorem clusterCount_eq_add (t : Text) :
    clusterCount t = (clusters t).length + (if isAscii t then lineEnds t else 0) := by
  rw [clusterCount]
  split
  · next h => exact (length_clustersAfter_add_lineEnds h []).symm
  · rfl

end Typeline
