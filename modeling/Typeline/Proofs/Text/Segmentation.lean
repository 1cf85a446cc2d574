import Typeline.Text.Cluster

/-!
# One segmentation of a text

Whether a position lies between two clusters is decided by the characters before it and by the one
character after it. So a cut between two clusters also cuts the list of clusters, and the walks
`forward` and `backward` find the places at which `clusters` cuts.

A position inside a cluster splits that cluster into `partBefore` and `partAfter`. The text up to
the position then ends in the cluster `partBefore`, while the whole text has the cluster
`partBefore ++ partAfter` in that place.

## Main definitions

* `partBefore`, `partAfter` : what a position makes of the cluster that it is in.

## Main results

* `isBoundary_forward`, `isBoundary_backward` : the walks end between two clusters.
* `clusters_append` : the clusters of a text that is cut between two of them.
* `clusters_split` : the clusters of a text, seen from a position inside one of them.
-/

namespace Typeline

/-- Only the first character after a position matters. -/
theorem isBoundary_cons_congr (before : List Char) (c : Char) (after after' : List Char) :
    isBoundary before (c :: after) = isBoundary before (c :: after') := by
  cases before <;> rfl

theorem isBoundary_append_congr (before : List Char) {t : List Char} (ht : t ≠ [])
    (after : List Char) : isBoundary before (t ++ after) = isBoundary before t := by
  obtain ⟨c, t, rfl⟩ := List.exists_cons_of_ne_nil ht
  exact isBoundary_cons_congr before c _ _

/-! ### The walk to the right -/

theorem isBoundary_forward (before after : List Char) :
    isBoundary (forward before after).1 (forward before after).2 = true := by
  induction after generalizing before with
  | nil => exact isBoundary_nil_right before
  | cons c after ih =>
    rw [forward]
    split
    · assumption
    · exact ih (c :: before)

/-- The walk to the right moves a piece of the text from one side to the other. -/
theorem forward_moves (before after : List Char) :
    ∃ piece, after = piece ++ (forward before after).2 ∧
      (forward before after).1 = piece.reverse ++ before := by
  induction after generalizing before with
  | nil => exact ⟨[], rfl, rfl⟩
  | cons c after ih =>
    rw [forward]
    split
    · exact ⟨[c], rfl, rfl⟩
    · obtain ⟨piece, hafter, hbefore⟩ := ih (c :: before)
      refine ⟨c :: piece, ?_, ?_⟩
      · rw [List.cons_append, ← hafter]
      · rw [hbefore, List.reverse_cons, List.append_assoc]
        rfl

theorem byteLength_forward (before after : List Char) :
    byteLength (forward before after).1 + byteLength (forward before after).2 =
      byteLength before + byteLength after := by
  obtain ⟨piece, hafter, hbefore⟩ := forward_moves before after
  have hlength := congrArg byteLength hafter
  rw [byteLength_append] at hlength
  rw [hbefore, byteLength_append, byteLength_reverse]
  omega

/-! ### The walk to the left -/

theorem isBoundary_backward (before after : List Char) :
    isBoundary (backward before after).1 (backward before after).2 = true := by
  induction before generalizing after with
  | nil => rfl
  | cons c before ih =>
    rw [backward]
    split
    · assumption
    · exact ih (c :: after)

/-- The walk to the left moves a piece of the text from one side to the other. -/
theorem backward_moves (before after : List Char) :
    ∃ piece, before = piece.reverse ++ (backward before after).1 ∧
      (backward before after).2 = piece ++ after := by
  induction before generalizing after with
  | nil => exact ⟨[], rfl, rfl⟩
  | cons c before ih =>
    rw [backward]
    split
    · exact ⟨[c], rfl, rfl⟩
    · obtain ⟨piece, hbefore, hafter⟩ := ih (c :: after)
      refine ⟨piece ++ [c], ?_, ?_⟩
      · rw [List.reverse_append, List.append_assoc, ← hbefore]
        rfl
      · rw [hafter, List.append_assoc]
        rfl

theorem byteLength_backward (before after : List Char) :
    byteLength (backward before after).1 + byteLength (backward before after).2 =
      byteLength before + byteLength after := by
  obtain ⟨piece, hbefore, hafter⟩ := backward_moves before after
  have hlength := congrArg byteLength hbefore
  rw [byteLength_append, byteLength_reverse] at hlength
  rw [hafter, byteLength_append]
  omega

/-- Where the walk to the left ends does not depend on the text behind it. -/
theorem backward_fst_congr (before after after' : List Char) :
    (backward before after).1 = (backward before after').1 := by
  induction before generalizing after after' with
  | nil => rfl
  | cons c before ih =>
    rw [backward, backward, isBoundary_cons_congr before c after after']
    split
    · rfl
    · exact ih (c :: after) (c :: after')

/-- Walking to the left and then to the right leads back to a border, and from inside of a cluster
to its end. -/
theorem forward_backward (c : Char) (before after : List Char) :
    forward (backward (c :: before) after).1 (backward (c :: before) after).2 =
      if isBoundary (c :: before) after then (c :: before, after)
      else forward (c :: before) after := by
  induction before generalizing c after with
  | nil => rw [backward, isBoundary_nil_left, if_pos rfl, forward]
  | cons d before ih =>
    rw [backward]
    by_cases h : isBoundary (d :: before) (c :: after) = true
    · rw [if_pos h, forward]
    · rw [if_neg h, ih d (c :: after), if_neg h, forward]

/-! ### The list of clusters -/

theorem clustersAfter_ne_nil (before : List Char) (c : Char) (after : List Char) :
    clustersAfter before (c :: after) ≠ [] := by
  rw [clustersAfter]
  split
  · exact List.cons_ne_nil _ _
  · split <;> exact List.cons_ne_nil _ _

/-- The first cluster is what the walk to the right passes over. -/
theorem clustersAfter_eq_cons (before : List Char) (c : Char) (after : List Char) :
    ∃ piece, c :: after = piece ++ (forward before (c :: after)).2 ∧
      clustersAfter before (c :: after) =
        piece :: clustersAfter (forward before (c :: after)).1 (forward before (c :: after)).2 := by
  induction after generalizing before c with
  | nil => exact ⟨[c], rfl, rfl⟩
  | cons d after ih =>
    rw [clustersAfter, forward]
    by_cases h : isBoundary (c :: before) (d :: after) = true
    · rw [if_pos h, if_pos h]
      exact ⟨[c], rfl, rfl⟩
    · rw [if_neg h, if_neg h]
      obtain ⟨piece, hafter, hclusters⟩ := ih (c :: before) d
      refine ⟨c :: piece, ?_, ?_⟩
      · rw [List.cons_append, ← hafter]
      · rw [hclusters]

theorem flatten_clustersAfter (before after : List Char) :
    (clustersAfter before after).flatten = after := by
  induction after generalizing before with
  | nil => rfl
  | cons c after ih =>
    rw [clustersAfter]
    split
    · rw [List.flatten_cons, ih, List.singleton_append]
    · have h := ih (c :: before)
      cases hrest : clustersAfter (c :: before) after with
      | nil => simp [hrest] at h; simp [← h]
      | cons cluster rest =>
        rw [hrest, List.flatten_cons] at h
        rw [List.flatten_cons, List.cons_append, h]

theorem flatten_clusters (t : Text) : (clusters t).flatten = t :=
  flatten_clustersAfter [] t

theorem ne_nil_of_mem_clustersAfter {before after : List Char} {cluster : Text}
    (h : cluster ∈ clustersAfter before after) : cluster ≠ [] := by
  induction after generalizing before cluster with
  | nil => exact absurd h List.not_mem_nil
  | cons c after ih =>
    rw [clustersAfter] at h
    split at h
    · rcases List.mem_cons.mp h with rfl | h
      · exact List.cons_ne_nil _ _
      · exact ih h
    · cases hrest : clustersAfter (c :: before) after with
      | nil =>
        rw [hrest, List.mem_singleton] at h
        exact h ▸ List.cons_ne_nil _ _
      | cons first rest =>
        rw [hrest] at h
        rcases List.mem_cons.mp h with rfl | h
        · exact List.cons_ne_nil _ _
        · exact ih (hrest ▸ List.mem_cons_of_mem _ h)

theorem ne_nil_of_mem_clusters {t cluster : Text} (h : cluster ∈ clusters t) : cluster ≠ [] :=
  ne_nil_of_mem_clustersAfter h

/-- A cut between two clusters cuts the list of clusters. -/
theorem clustersAfter_append (before : List Char) {s t : List Char}
    (h : isBoundary (s.reverse ++ before) t = true) :
    clustersAfter before (s ++ t) =
      clustersAfter before s ++ clustersAfter (s.reverse ++ before) t := by
  induction s generalizing before with
  | nil => rfl
  | cons c s ih =>
    rw [List.reverse_cons, List.append_assoc, List.singleton_append] at h ⊢
    rw [List.cons_append, clustersAfter, clustersAfter, ih (c :: before) h]
    cases s with
    | nil =>
      have hc : isBoundary (c :: before) ([] ++ t) = true := h
      rw [if_pos hc, if_pos (isBoundary_nil_right _)]
      rfl
    | cons d s =>
      rw [List.cons_append, isBoundary_cons_congr (c :: before) d (s ++ t) s]
      by_cases hc : isBoundary (c :: before) (d :: s) = true
      · rw [if_pos hc, if_pos hc]
        rfl
      · rw [if_neg hc, if_neg hc]
        obtain ⟨first, rest, hrest⟩ :=
          List.exists_cons_of_ne_nil (clustersAfter_ne_nil (c :: before) d s)
        rw [hrest]
        rfl

theorem clusters_append {s t : Text} (h : isBoundary s.reverse t = true) :
    clusters (s ++ t) = clusters s ++ clustersAfter s.reverse t := by
  have h' := clustersAfter_append [] (s := s) (t := t) (by rwa [List.append_nil])
  rwa [List.append_nil] at h'

/-! ### A position inside of a cluster -/

/-- The part of the cluster at a position that lies before the position. -/
def partBefore (before after : List Char) : Text :=
  (before.take (before.length - (backward before after).1.length)).reverse

/-- The part of the cluster at a position that lies after the position. -/
def partAfter (before after : List Char) : Text :=
  after.take (after.length - (forward before after).2.length)

theorem partBefore_spec (before after : List Char) :
    before = (partBefore before after).reverse ++ (backward before after).1 ∧
      (backward before after).2 = partBefore before after ++ after := by
  obtain ⟨piece, hbefore, hafter⟩ := backward_moves before after
  have hpiece : partBefore before after = piece := by
    have hlength : before.length - (backward before after).1.length = piece.reverse.length := by
      have := congrArg List.length hbefore
      rw [List.length_append] at this
      omega
    rw [partBefore, hlength]
    conv => lhs; rw [hbefore]
    rw [List.take_left, List.reverse_reverse]
  rw [hpiece]
  exact ⟨hbefore, hafter⟩

theorem partAfter_spec (before after : List Char) :
    after = partAfter before after ++ (forward before after).2 := by
  obtain ⟨piece, hafter, -⟩ := forward_moves before after
  have hpiece : partAfter before after = piece := by
    have hlength : after.length - (forward before after).2.length = piece.length := by
      have := congrArg List.length hafter
      rw [List.length_append] at this
      omega
    rw [partAfter, hlength]
    conv => lhs; rw [hafter]
    exact List.take_left
  rwa [hpiece]

theorem partBefore_ne_nil {before : List Char} (h : before ≠ []) (after : List Char) :
    partBefore before after ≠ [] := by
  obtain ⟨c, before, rfl⟩ := List.exists_cons_of_ne_nil h
  intro hnil
  have hspec := (partBefore_spec (c :: before) after).1
  have hlt := length_backward_lt c before after
  rw [hnil, List.reverse_nil, List.nil_append] at hspec
  rw [← hspec] at hlt
  exact Nat.lt_irrefl _ hlt

theorem partAfter_ne_nil (before : List Char) {after : List Char} (h : after ≠ []) :
    partAfter before after ≠ [] := by
  obtain ⟨c, after, rfl⟩ := List.exists_cons_of_ne_nil h
  intro hnil
  have hspec := partAfter_spec before (c :: after)
  have hlt := length_forward_lt before c after
  rw [hnil, List.nil_append] at hspec
  rw [← hspec] at hlt
  exact Nat.lt_irrefl _ hlt

private theorem partBefore_congr (before after after' : List Char) :
    partBefore before after = partBefore before after' := by
  rw [partBefore, partBefore, backward_fst_congr before after after']

/-- The text before a position is cut where the cluster at the position starts. -/
theorem clusters_before {before : List Char} (h : before ≠ []) (after : List Char) :
    clusters before.reverse =
      clusters (backward before after).1.reverse ++ [partBefore before after] := by
  obtain ⟨c, before, rfl⟩ := List.exists_cons_of_ne_nil h
  obtain ⟨hbefore, hafter⟩ := partBefore_spec (c :: before) []
  have hpart := partBefore_ne_nil h []
  rw [partBefore_congr _ after [], backward_fst_congr _ after []]
  rw [List.append_nil] at hafter
  have hboundary := isBoundary_backward (c :: before) []
  have hforward := forward_backward c before []
  rw [isBoundary_nil_right, if_pos rfl] at hforward
  rw [hafter] at hboundary hforward
  conv => lhs; rw [hbefore, List.reverse_append, List.reverse_reverse]
  rw [clusters_append (by rwa [List.reverse_reverse]), List.reverse_reverse]
  obtain ⟨d, part, hcons⟩ := List.exists_cons_of_ne_nil hpart
  rw [hcons] at hforward ⊢
  obtain ⟨piece, hpiece, hclusters⟩ := clustersAfter_eq_cons (backward (c :: before) []).1 d part
  rw [hforward, List.append_nil] at hpiece
  rw [hclusters, hforward, ← hpiece]
  rfl

/-- **A position inside of a cluster.** The whole text has a cluster of two parts where the text up
to the position has the first part alone. -/
theorem clusters_split {before after : List Char} (h : isBoundary before after = false) :
    clusters (before.reverse ++ after) =
      clusters (backward before after).1.reverse ++
        (partBefore before after ++ partAfter before after) ::
          clustersAfter (forward before after).1 (forward before after).2 := by
  cases before with
  | nil => exact absurd h (by simp)
  | cons c before =>
    obtain ⟨hbefore, hafter⟩ := partBefore_spec (c :: before) after
    have hboundary := isBoundary_backward (c :: before) after
    have hforward := forward_backward c before after
    rw [if_neg (by simp [h])] at hforward
    have htext : (c :: before).reverse ++ after =
        (backward (c :: before) after).1.reverse ++ (backward (c :: before) after).2 := by
      conv => lhs; rw [hbefore, List.reverse_append, List.reverse_reverse, List.append_assoc]
      rw [← hafter]
    rw [htext, clusters_append (by rwa [List.reverse_reverse]), List.reverse_reverse]
    obtain ⟨d, part, hcons⟩ := List.exists_cons_of_ne_nil
      (partBefore_ne_nil (List.cons_ne_nil c before) after)
    rw [hcons, List.cons_append] at hafter
    rw [hafter] at hforward ⊢
    obtain ⟨piece, hpiece, hclusters⟩ :=
      clustersAfter_eq_cons (backward (c :: before) after).1 d (part ++ after)
    rw [hforward] at hpiece
    -- The piece that the walk passes over ends where the walk from the position ends.
    have hpart : piece = d :: part ++ partAfter (c :: before) after := by
      rw [← List.append_left_inj (forward (c :: before) after).2, ← hpiece, List.append_assoc,
        ← partAfter_spec, List.cons_append]
    rw [hclusters, hforward, hcons, hpart]

end Typeline
