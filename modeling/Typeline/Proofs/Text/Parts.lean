import Typeline.Proofs.Text.Columns

/-!
# Parts of a text between two borders

A text that is cut between two of its clusters falls into parts that can be looked at by themselves:
the clusters of a part are those that it has in the whole text. To the left of the cut this is so
since no border depends on what follows it, but for one character. To the right it is a fact about
what a border may look back at, which is a consonant behind linkers or a run of flag letters. Both
end at any border to the left: no border stands before a linker, unless what precedes it is a
control character, and a border among flag letters has an even number of them before it.

## Main definitions

* `IsBorder` : whether a number of characters of a text ends between two clusters.
* `part` : the text between two numbers of characters.

## Main results

* `isBoundary_append_of_isBoundary` : what stands before a border has no part in the ones behind it.
* `clustersAfter_eq_clusters` : the clusters behind a border.
* `clusters_part` : the clusters of a part between two borders.
-/

namespace Typeline

/-! ### Linkers -/

namespace RangeSet

private theorem exists_of_search {ranges : Array (Nat × Nat)} {n bound low high : Nat}
    (h : search ranges n bound low high = true) :
    ∃ range ∈ ranges.toList, range.1 ≤ n ∧ n ≤ range.2 := by
  induction bound generalizing low high with
  | zero => exact absurd h Bool.false_ne_true
  | succ bound ih =>
    rw [search] at h
    split at h
    · dsimp only at h
      split at h
      · exact absurd h Bool.false_ne_true
      · next first last hrange =>
        split at h
        · exact ih h
        · split at h
          · exact ih h
          · refine ⟨(first, last), ?_, by omega, by omega⟩
            exact Array.mem_toList_iff.mpr (Array.mem_of_getElem? hrange)
    · exact absurd h Bool.false_ne_true

/-- A character of a set is in one of its ranges. -/
theorem exists_of_contains {s : RangeSet} {c : Char} (h : s.contains c = true) :
    ∃ range ∈ s.ranges.toList, range.1 ≤ c.toNat ∧ c.toNat ≤ range.2 := exists_of_search h

end RangeSet

/-- Every linker extends the character before it. -/
theorem breakClass_of_linker {c : Char} (h : BreakTable.linker.contains c = true) :
    breakClass c = .extend := by
  have htable : ∀ range ∈ BreakTable.linker.ranges.toList,
      range.2 = range.1 ∧ breakClass (Char.ofNat range.1) = .extend := by
    decide +kernel
  obtain ⟨range, hrange, hfirst, hlast⟩ := RangeSet.exists_of_contains h
  obtain ⟨hsingle, hclass⟩ := htable range hrange
  have hc : c.toNat = range.1 := by omega
  rwa [← hc, Char.ofNat_toNat] at hclass

/-! ### Flags -/

private theorem breakClass_of_isRegional {c : Char} (h : isRegional c = true) :
    breakClass c = .regional := by
  have hascii : ¬c.toNat < 0x80 := by
    simp only [isRegional, Bool.and_eq_true, decide_eq_true_eq] at h
    omega
  rw [breakClass, if_neg hascii, if_pos h]

private theorem isBoundary_regional {c d : Char} (hc : isRegional c = true)
    (hd : isRegional d = true)
    {before after : List Char} (h : isBoundary (c :: before) (d :: after) = true) :
    endsInHalfFlag (c :: before) = false := by
  rw [isBoundary, Bool.and_eq_true, breakClass_of_isRegional hc, breakClass_of_isRegional hd] at h
  simpa [splits] using h.2

theorem endsInHalfFlag_cons {c : Char} (hc : isRegional c = true) (before : List Char) :
    endsInHalfFlag (c :: before) = !endsInHalfFlag before := by
  rw [endsInHalfFlag, endsInHalfFlag, List.takeWhile_cons_of_pos hc, List.length_cons]
  generalize (before.takeWhile isRegional).length = count
  rcases Nat.mod_two_eq_zero_or_one count with hcount | hcount
  · rw [hcount, show (count + 1) % 2 = 1 by omega]
    rfl
  · rw [hcount, show (count + 1) % 2 = 0 by omega]
    rfl

/-! ### What a border may look back at -/

section LookingBack

variable {before : List Char} {c : Char} {after : List Char}
  (h : isBoundary before (c :: after) = true)

include h

/-- Before a character that extends what stands before it there is a border only where nothing can
be extended. -/
theorem endsLinked_of_isBoundary (hc : breakClass c = .extend) (linked : Bool) :
    endsLinked linked before = false := by
  cases before with
  | nil => rfl
  | cons b before =>
    rw [isBoundary, Bool.and_eq_true, hc] at h
    have hsplits := h.2
    have hb : breakClass b ≠ .extend ∧ breakClass b ≠ .consonant := by
      refine ⟨fun hclass => ?_, fun hclass => ?_⟩
      all_goals
        rw [hclass] at hsplits
        exact absurd hsplits (by simp [splits])
    have hlinker : ¬BreakTable.linker.contains b = true := fun hlinker =>
      hb.1 (breakClass_of_linker hlinker)
    have hextend : ¬isConjunctExtend b = true := by
      simp [isConjunctExtend, hb.1]
    rw [endsLinked, if_neg hlinker, if_neg hextend]
    simp [hb.2]

/-- A border before a flag letter has an even number of them before it. -/
theorem endsInHalfFlag_of_isBoundary (hc : isRegional c = true) :
    endsInHalfFlag before = false := by
  cases before with
  | nil => rfl
  | cons b before =>
    by_cases hb : isRegional b = true
    · exact isBoundary_regional hb hc h
    · rw [endsInHalfFlag, List.takeWhile_cons_of_neg hb]
      rfl

private theorem endsLinked_append_of_isBoundary (linked : Bool) (s : List Char) :
    endsLinked linked (s ++ c :: before) = endsLinked linked (s ++ [c]) := by
  induction s generalizing linked with
  | nil =>
    rw [List.nil_append, List.nil_append, endsLinked, endsLinked]
    split
    · next hlinker =>
      rw [endsLinked_of_isBoundary h (breakClass_of_linker hlinker)]
      rfl
    · split
      · next hextend =>
        have hclass : breakClass c = .extend := by
          simpa using (Bool.and_eq_true_iff.mp hextend).2
        rw [endsLinked_of_isBoundary h hclass]
        rfl
      · rfl
  | cons d s ih => rw [List.cons_append, List.cons_append, endsLinked, endsLinked, ih, ih]

private theorem endsInHalfFlag_append_of_isBoundary (s : List Char) :
    endsInHalfFlag (s ++ c :: before) = endsInHalfFlag (s ++ [c]) := by
  induction s with
  | nil =>
    by_cases hc : isRegional c = true
    · rw [List.nil_append, List.nil_append, endsInHalfFlag_cons hc, endsInHalfFlag_cons hc,
        endsInHalfFlag_of_isBoundary h hc]
      rfl
    · rw [List.nil_append, List.nil_append, endsInHalfFlag, endsInHalfFlag,
        List.takeWhile_cons_of_neg hc, List.takeWhile_cons_of_neg hc]
  | cons d s ih =>
    rw [List.cons_append, List.cons_append]
    by_cases hd : isRegional d = true
    · rw [endsInHalfFlag_cons hd, endsInHalfFlag_cons hd, ih]
    · rw [endsInHalfFlag, endsInHalfFlag, List.takeWhile_cons_of_neg hd,
        List.takeWhile_cons_of_neg hd]

end LookingBack

/-! ### Parts that are looked at by themselves -/

private theorem splits_congr {before before' : List Char}
    (hlinked : endsLinked false before = endsLinked false before')
    (hflag : endsInHalfFlag before = endsInHalfFlag before') (left right : BreakClass) :
    splits before left right = splits before' left right := by
  unfold splits
  rw [hlinked, hflag]

/-- **Borders behind a border.** What stands before a border has no part in the borders behind
it. -/
theorem isBoundary_append_of_isBoundary {before s t : List Char}
    (h : isBoundary before (s ++ t) = true) (hs : s ≠ []) :
    isBoundary (s.reverse ++ before) t = isBoundary s.reverse t := by
  obtain ⟨c, s, rfl⟩ := List.exists_cons_of_ne_nil hs
  rw [List.cons_append] at h
  rw [List.reverse_cons, List.append_assoc, List.singleton_append]
  have hsplits := splits_congr (endsLinked_append_of_isBoundary h false s.reverse)
    (endsInHalfFlag_append_of_isBoundary h s.reverse)
  cases t with
  | nil => rw [isBoundary_nil_right, isBoundary_nil_right]
  | cons d t =>
    cases hrev : s.reverse with
    | nil =>
      rw [hrev] at hsplits
      rw [List.nil_append, List.nil_append, isBoundary, isBoundary]
      exact congrArg _ (hsplits _ _)
    | cons l s =>
      rw [hrev] at hsplits
      rw [List.cons_append, List.cons_append, isBoundary, isBoundary]
      exact congrArg _ (hsplits _ _)

private theorem clustersAfter_congr (before before' : List Char) {t : List Char}
    (h : ∀ s u, s ++ u = t → s ≠ [] →
      isBoundary (s.reverse ++ before) u = isBoundary (s.reverse ++ before') u) :
    clustersAfter before t = clustersAfter before' t := by
  induction t generalizing before before' with
  | nil => rfl
  | cons c t ih =>
    have hhead : isBoundary (c :: before) t = isBoundary (c :: before') t :=
      h [c] t rfl (List.cons_ne_nil c [])
    have hrest := ih (c :: before) (c :: before') fun s u hsu hs => by
      have hlater := h (c :: s) u (by rw [List.cons_append, hsu]) (List.cons_ne_nil c s)
      rwa [List.reverse_cons, List.append_assoc, List.append_assoc] at hlater
    rw [clustersAfter, clustersAfter, hhead, hrest]

/-- **The clusters behind a border** are those of the text behind it. -/
theorem clustersAfter_eq_clusters {before t : List Char} (h : isBoundary before t = true) :
    clustersAfter before t = clusters t := by
  refine clustersAfter_congr before [] fun s u hsu hs => ?_
  subst hsu
  rw [isBoundary_append_of_isBoundary h hs, List.append_nil]

theorem clusters_append_of_isBoundary {s t : Text} (h : isBoundary s.reverse t = true) :
    clusters (s ++ t) = clusters s ++ clusters t := by
  rw [clusters_append h, clustersAfter_eq_clusters h]

/-- Between two clusters of a list there is a border. -/
theorem isBoundary_of_clustersAfter_eq {before t : List Char} {parts parts' : List Text}
    (h : isBoundary before t = true) (hparts : clustersAfter before t = parts ++ parts') :
    isBoundary (parts.flatten.reverse ++ before) parts'.flatten = true := by
  induction parts generalizing before t with
  | nil =>
    rw [List.nil_append] at hparts
    rwa [← hparts, flatten_clustersAfter]
  | cons part parts ih =>
    cases t with
    | nil => exact absurd hparts (by simp [clustersAfter])
    | cons c t =>
      obtain ⟨piece, ht, hclusters⟩ := clustersAfter_eq_cons before c t
      obtain ⟨piece', ht', hbefore⟩ := forward_moves before (c :: t)
      obtain rfl : piece = piece' := List.append_cancel_right (ht.symm.trans ht')
      rw [hclusters, List.cons_append] at hparts
      obtain ⟨rfl, hrest⟩ := List.cons.inj hparts
      have hlater := ih (isBoundary_forward before (c :: t)) hrest
      rwa [hbefore, ← List.append_assoc, ← List.reverse_append] at hlater

/-- Two ways to cut a list of parts that are not empty are the same if they cut the text alike. -/
theorem eq_of_append_eq {parts parts' rest rest' : List Text}
    (h : parts ++ rest = parts' ++ rest') (hne : ∀ part ∈ parts ++ rest, part ≠ [])
    (hflatten : parts.flatten = parts'.flatten) : parts = parts' ∧ rest = rest' := by
  suffices hparts : parts = parts' by
    subst hparts
    exact ⟨rfl, List.append_cancel_left h⟩
  have hnil {more : List Text} (hmore : ∀ part ∈ more, part ≠ []) (hempty : more.flatten = []) :
      more = [] :=
    List.eq_nil_iff_forall_not_mem.mpr fun part hmem =>
      hmore part hmem (List.flatten_eq_nil_iff.mp hempty part hmem)
  rcases List.append_eq_append_iff.mp h with ⟨more, rfl, rfl⟩ | ⟨more, rfl, rfl⟩
  · rw [List.flatten_append, List.self_eq_append_right] at hflatten
    rw [hnil (fun part hmem => hne part (by simp [hmem])) hflatten, List.append_nil]
  · rw [List.flatten_append, eq_comm, List.self_eq_append_right] at hflatten
    rw [hnil (fun part hmem => hne part (by simp [hmem])) hflatten, List.append_nil]

/-- Some clusters of a text are the clusters of the text that they make up. -/
theorem clusters_flatten {t : Text} {parts parts' : List Text} (h : clusters t = parts ++ parts') :
    clusters parts.flatten = parts ∧ clusters parts'.flatten = parts' := by
  have hboundary := isBoundary_of_clustersAfter_eq (isBoundary_nil_left t) h
  rw [List.append_nil] at hboundary
  have hflatten := flatten_clusters t
  rw [h, List.flatten_append] at hflatten
  have hsplit := clusters_append_of_isBoundary hboundary
  rw [hflatten, h] at hsplit
  obtain ⟨hleft, hright⟩ := eq_of_append_eq hsplit
    (fun part hmem => ne_nil_of_mem_clusters (h ▸ hmem)) (flatten_clusters _).symm
  exact ⟨hleft.symm, hright.symm⟩

/-! ### Positions between clusters -/

/-- Whether the first characters of a text, so many of them, end between two clusters. -/
def IsBorder (t : Text) (i : Nat) : Prop :=
  i ≤ t.length ∧ isBoundary (t.take i).reverse (t.drop i) = true

instance (t : Text) (i : Nat) : Decidable (IsBorder t i) := inferInstanceAs (Decidable (_ ∧ _))

/-- The text between two numbers of characters. -/
def part (t : Text) (i j : Nat) : Text := (t.take j).drop i

section Borders

variable {t : Text} {i j k : Nat}

private theorem isBorder_iff : IsBorder t i ↔
    ∃ s u, t = s ++ u ∧ s.length = i ∧ isBoundary s.reverse u = true := by
  constructor
  · rintro ⟨hi, h⟩
    exact ⟨_, _, (List.take_append_drop i t).symm, List.length_take_of_le hi, h⟩
  · rintro ⟨s, u, rfl, rfl, h⟩
    refine ⟨by simp, ?_⟩
    rwa [List.take_left, List.drop_left]

theorem isBorder_zero (t : Text) : IsBorder t 0 := ⟨Nat.zero_le _, rfl⟩

theorem isBorder_of_clusters_eq {parts parts' : List Text} (h : clusters t = parts ++ parts') :
    IsBorder t parts.flatten.length := by
  have hflatten := flatten_clusters t
  have hboundary := isBoundary_of_clustersAfter_eq (isBoundary_nil_left t) h
  rw [h, List.flatten_append] at hflatten
  rw [List.append_nil] at hboundary
  exact isBorder_iff.mpr ⟨_, _, hflatten.symm, rfl, hboundary⟩

theorem part_zero_length (t : Text) : part t 0 t.length = t := by
  rw [part, List.take_length, List.drop_zero]

theorem length_part (hj : j ≤ t.length) : (part t i j).length = j - i := by
  rw [part, List.length_drop, List.length_take_of_le hj]

theorem part_append (hj : j ≤ t.length) (hij : i ≤ j) (hjk : j ≤ k) :
    part t i j ++ part t j k = part t i k := by
  have htake : t.take k = t.take j ++ part t j k := by
    conv => lhs; rw [← List.take_append_drop j (t.take k), List.take_take, Nat.min_eq_left hjk]
    rfl
  rw [part, part.eq_1 t i k, htake, List.drop_append_of_le_length]
  rwa [List.length_take_of_le hj]

theorem drop_eq_part_append (hj : j ≤ t.length) (hij : i ≤ j) :
    t.drop i = part t i j ++ t.drop j := by
  have hsplit := part_append hj hij hj
  rwa [part.eq_1 t j, part.eq_1 t i t.length, List.take_length, eq_comm] at hsplit

/-- Some clusters of a text, and the part that they make up. -/
theorem clusters_part_of_eq {before parts after : List Text}
    (h : clusters t = before ++ parts ++ after) :
    clusters (part t before.flatten.length
      (before.flatten.length + parts.flatten.length)) = parts := by
  have hflatten := flatten_clusters t
  rw [h, List.flatten_append, List.flatten_append] at hflatten
  have hpart : part t before.flatten.length (before.flatten.length + parts.flatten.length) =
      parts.flatten := by
    rw [part, ← hflatten, ← List.length_append, List.take_left, List.drop_left]
  rw [hpart]
  exact (clusters_flatten (clusters_flatten h).1).2

/-- **The clusters of a part.** A border in a part cuts its clusters, and so they are those that the
part has in the whole text. -/
theorem clusters_part (hi : IsBorder t i) (hj : IsBorder t j) (hij : i ≤ j) (hjk : j ≤ k)
    (hk : k ≤ t.length) :
    clusters (part t i k) = clusters (part t i j) ++ clusters (part t j k) := by
  rw [← part_append hj.1 hij hjk]
  refine clusters_append_of_isBoundary ?_
  by_cases hempty : part t i j = []
  · rw [hempty]
    rfl
  · have hfirst := hi.2
    have hsecond := hj.2
    have htake := part_append hi.1 (Nat.zero_le i) hij
    rw [part, part.eq_1 t 0 j, List.drop_zero, List.drop_zero] at htake
    rw [drop_eq_part_append hj.1 hij] at hfirst
    rw [← htake, List.reverse_append, isBoundary_append_of_isBoundary hfirst hempty,
      drop_eq_part_append hk hjk] at hsecond
    by_cases hlast : part t j k = []
    · rw [hlast, isBoundary_nil_right]
    · rwa [isBoundary_append_congr _ hlast] at hsecond

theorem clusters_eq_append (hi : IsBorder t i) :
    clusters t = clusters (part t 0 i) ++ clusters (part t i t.length) := by
  have hcut := clusters_part (isBorder_zero t) hi (Nat.zero_le i) hi.1 (Nat.le_refl _)
  rwa [part_zero_length] at hcut

end Borders

end Typeline
