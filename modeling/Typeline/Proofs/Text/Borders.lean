import Mathlib.Data.Nat.Find
import Mathlib.Order.Bounds.Basic
import Typeline.Proofs.Text.Columns

/-!
# Borders of clusters by byte offsets

Outside of this library a position of a text is a byte offset. Of an offset one may ask whether it
is a border of clusters, how far it is to the next border, and how far to the one before; and a text
may be taken apart into its clusters. All of these answers describe one set of offsets.

Unicode has rules of its own for cutting a text, and a text can be cut by anything that follows
them. Some of these cuts are folded: before a character of zero width and behind a joiner nothing is
cut. The borders of clusters are the cuts that are not folded, so the walk from a border to the next
one goes from cut to cut and passes over the folded ones. `PlainCuts` is what such a walk relies on:
it may ask whether there is a cut at an offset, where the next one is, and where the one before.

## Main definitions

* `isBorderAt` : whether a byte offset is a border of clusters.
* `PlainCuts` : the cuts of a text by the rules of Unicode, as they are asked for.
* `PlainCuts.ForwardTo`, `PlainCuts.BackwardTo` : the walks over the cuts that are folded.
* `startsFrom`, `stopsBackward` : where clusters start, and where a walk to the left stops.

## Main results

* `isLeast_forward`, `isGreatest_backward` : the borders next to an offset.
* `mem_startsFrom_clustersAfter` : the clusters of a text start at its borders.
* `one_segmentation` : all of these describe the same borders.
-/

namespace Typeline

/-- Whether a test on positions holds at a byte offset of a text. It does not inside of a
character. -/
def holdsAt (test : List Char → List Char → Bool) (t : Text) (offset : Nat) : Bool :=
  match splitAtByte? offset t with
  | some (before, after) => test before after
  | none => false

/-- Whether a byte offset of a text is a border of clusters. -/
def isBorderAt (t : Text) (offset : Nat) : Bool := holdsAt isBoundary t offset

/-! ### Positions and byte offsets -/

section Offsets

variable {t : Text} {p q : Nat} {before after before' after' : List Char}

theorem splitAtByte?_go_append (passed s after : List Char) :
    splitAtByte?.go (byteLength s) passed (s ++ after) = some (s.reverse ++ passed, after) := by
  induction s generalizing passed with
  | nil =>
    rw [byteLength_nil, splitAtByte?.go]
    rfl
  | cons c s ih =>
    have hsize := c.utf8Size_pos
    obtain ⟨n, hn⟩ : ∃ n, c.utf8Size + byteLength s = n + 1 := Nat.exists_eq_add_one.mpr (by omega)
    have hrest : n + 1 - c.utf8Size = byteLength s := by omega
    rw [byteLength_cons, List.cons_append, hn, splitAtByte?.go, if_pos (by omega), hrest, ih,
      List.reverse_cons, List.append_assoc, List.singleton_append]

private theorem exists_of_splitAtByte?_go {n : Nat} {passed rest : List Char}
    (h : splitAtByte?.go n passed rest = some (before, after)) :
    ∃ s, before = s.reverse ++ passed ∧ rest = s ++ after ∧ byteLength s = n := by
  fun_induction splitAtByte?.go n passed rest with
  | case1 passed rest =>
    obtain ⟨rfl, rfl⟩ := Prod.mk.inj (Option.some.inj h)
    exact ⟨[], rfl, rfl, rfl⟩
  | case2 => exact nomatch h
  | case3 n passed c rest hc ih =>
    obtain ⟨s, rfl, rfl, hs⟩ := ih h
    refine ⟨c :: s, ?_, rfl, ?_⟩
    · rw [List.reverse_cons, List.append_assoc, List.singleton_append]
    · rw [byteLength_cons, hs]
      exact Nat.add_sub_cancel' hc
  | case4 => exact nomatch h

/-- A byte offset at which a text can be cut is a position between two of its characters. -/
theorem splitAtByte?_eq_some :
    splitAtByte? p t = some (before, after) ↔
      before.reverse ++ after = t ∧ byteLength before = p := by
  constructor
  · intro h
    obtain ⟨s, rfl, rfl, rfl⟩ := exists_of_splitAtByte?_go h
    rw [List.append_nil, List.reverse_reverse, byteLength_reverse]
    exact ⟨rfl, rfl⟩
  · rintro ⟨rfl, rfl⟩
    have hgo := splitAtByte?_go_append [] before.reverse after
    rwa [byteLength_reverse, List.reverse_reverse, List.append_nil] at hgo

theorem splitAtByte?_length (t : Text) : splitAtByte? (byteLength t) t = some (t.reverse, []) :=
  splitAtByte?_eq_some.mpr ⟨by simp, byteLength_reverse t⟩

theorem byteLength_of_splitAtByte? (h : splitAtByte? p t = some (before, after)) :
    byteLength t = p + byteLength after := by
  obtain ⟨rfl, rfl⟩ := splitAtByte?_eq_some.mp h
  rw [byteLength_append, byteLength_reverse]

theorem eq_nil_iff_of_splitAtByte? (h : splitAtByte? p t = some (before, after)) :
    (before = [] ↔ p = 0) ∧ (after = [] ↔ p = byteLength t) := by
  have hlength := byteLength_of_splitAtByte? h
  obtain ⟨-, rfl⟩ := splitAtByte?_eq_some.mp h
  refine ⟨⟨?_, eq_nil_of_byteLength_eq_zero⟩, ?_, fun hend => ?_⟩
  · rintro rfl
    rfl
  · rintro rfl
    exact hlength.symm
  · exact eq_nil_of_byteLength_eq_zero (by omega)

variable {test : List Char → List Char → Bool}

theorem holdsAt_of_splitAtByte? (h : splitAtByte? p t = some (before, after)) :
    holdsAt test t p = test before after := by
  rw [holdsAt, h]

theorem exists_splitAtByte?_of_holdsAt (h : holdsAt test t p = true) :
    ∃ before after, splitAtByte? p t = some (before, after) ∧ test before after = true := by
  rw [holdsAt] at h
  split at h
  · next before after hsplit => exact ⟨before, after, hsplit, h⟩
  · exact absurd h Bool.false_ne_true

/-- Between two offsets of a text lies a piece of it. -/
theorem exists_piece (h : splitAtByte? p t = some (before, after))
    (h' : splitAtByte? q t = some (before', after')) (hle : p ≤ q) :
    ∃ s, before' = s.reverse ++ before ∧ after = s ++ after' := by
  obtain ⟨htext, rfl⟩ := splitAtByte?_eq_some.mp h
  obtain ⟨htext', rfl⟩ := splitAtByte?_eq_some.mp h'
  rcases List.append_eq_append_iff.mp (htext.trans htext'.symm) with ⟨s, hs, ha⟩ | ⟨s, hs, ha⟩
  · refine ⟨s, ?_, ha⟩
    rw [← List.reverse_reverse before', hs, List.reverse_append, List.reverse_reverse]
  · -- The second offset is not smaller, so nothing lies between it and the first one.
    have hlength := congrArg byteLength hs
    rw [byteLength_append, byteLength_reverse, byteLength_reverse] at hlength
    obtain rfl := eq_nil_of_byteLength_eq_zero (t := s) (by omega)
    rw [List.append_nil, List.reverse_inj] at hs
    exact ⟨[], hs.symm, ha.symm⟩

end Offsets

/-! ### The borders next to an offset -/

/-- The walk to the right passes over no border. -/
theorem isBoundary_eq_false_of_forward {before after s rest : List Char}
    (hafter : after = s ++ rest)
    (hs : s ≠ []) (hlt : byteLength (forward before after).2 < byteLength rest) :
    isBoundary (s.reverse ++ before) rest = false := by
  induction after generalizing before s with
  | nil => exact absurd (List.append_eq_nil_iff.mp hafter.symm).1 hs
  | cons c after ih =>
    obtain ⟨d, s, rfl⟩ := List.exists_cons_of_ne_nil hs
    obtain ⟨rfl, rfl⟩ := List.cons.inj hafter
    rw [List.reverse_cons, List.append_assoc, List.singleton_append]
    rw [forward] at hlt
    split at hlt
    · change byteLength (s ++ rest) < byteLength rest at hlt
      rw [byteLength_append] at hlt
      omega
    · next hinside =>
      by_cases hnil : s = []
      · subst hnil
        exact Bool.eq_false_of_not_eq_true hinside
      · exact ih rfl hnil hlt

/-- The walk to the left passes over no border. -/
theorem isBoundary_eq_false_of_backward {before after s rest : List Char}
    (hbefore : before = s.reverse ++ rest) (hs : s ≠ [])
    (hlt : byteLength (backward before after).1 < byteLength rest) :
    isBoundary rest (s ++ after) = false := by
  induction before generalizing after s with
  | nil =>
    have hnil := (List.append_eq_nil_iff.mp hbefore.symm).1
    exact absurd (List.reverse_eq_nil_iff.mp hnil) hs
  | cons c before ih =>
    obtain ⟨s, d, rfl⟩ := List.eq_nil_or_concat s |>.resolve_left hs
    rw [List.concat_eq_append] at hbefore ⊢
    rw [List.reverse_append, List.reverse_singleton, List.singleton_append, List.cons_append]
      at hbefore
    obtain ⟨rfl, rfl⟩ := List.cons.inj hbefore
    rw [List.append_assoc, List.singleton_append]
    rw [backward] at hlt
    split at hlt
    · rw [byteLength_append] at hlt
      omega
    · next hinside =>
      by_cases hnil : s = []
      · subst hnil
        exact Bool.eq_false_of_not_eq_true hinside
      · exact ih rfl hnil hlt

theorem byteLength_forward_lt (before : List Char) {after : List Char} (hne : after ≠ []) :
    byteLength (forward before after).2 < byteLength after := by
  obtain ⟨c, rest, rfl⟩ := List.exists_cons_of_ne_nil hne
  obtain ⟨piece, hafter, -⟩ := forward_moves before (c :: rest)
  have hshorter := length_forward_lt before c rest
  have hpiece : piece ≠ [] := by
    rintro rfl
    rw [List.nil_append] at hafter
    rw [← hafter] at hshorter
    exact Nat.lt_irrefl _ hshorter
  have hlength := congrArg byteLength hafter
  rw [byteLength_append] at hlength
  have := byteLength_pos hpiece
  omega

theorem byteLength_backward_lt {before : List Char} (hne : before ≠ []) (after : List Char) :
    byteLength (backward before after).1 < byteLength before := by
  obtain ⟨hbefore, -⟩ := partBefore_spec before after
  have hlength := congrArg byteLength hbefore
  rw [byteLength_append, byteLength_reverse] at hlength
  have := byteLength_pos (partBefore_ne_nil hne after)
  omega

section Walks

variable {t : Text} {p : Nat} {before after : List Char}
  (h : splitAtByte? p t = some (before, after))

include h

theorem splitAtByte?_forward : splitAtByte? (p + forwardLength before after) t =
    some (forward before after) := by
  obtain ⟨piece, hafter, hbefore⟩ := forward_moves before after
  have hlength := byteLength_forward before after
  obtain ⟨rfl, rfl⟩ := splitAtByte?_eq_some.mp h
  refine splitAtByte?_eq_some.mpr ⟨?_, ?_⟩
  · rw [hbefore, List.reverse_append, List.reverse_reverse, List.append_assoc, ← hafter]
  · rw [forwardLength]
    have hle := congrArg byteLength hafter
    rw [byteLength_append] at hle
    omega

theorem splitAtByte?_backward : splitAtByte? (p - backwardLength before after) t =
    some (backward before after) := by
  obtain ⟨piece, hbefore, hafter⟩ := backward_moves before after
  obtain ⟨rfl, rfl⟩ := splitAtByte?_eq_some.mp h
  refine splitAtByte?_eq_some.mpr ⟨?_, ?_⟩
  · conv => rhs; rw [hbefore, List.reverse_append, List.reverse_reverse, List.append_assoc]
    rw [hafter]
  · rw [backwardLength]
    have hle := congrArg byteLength hbefore
    rw [byteLength_append] at hle
    omega

/-- **The next border.** The walk to the right leads to the least border behind an offset. -/
theorem isLeast_forward (hlt : p < byteLength t) :
    IsLeast {o | p < o ∧ isBorderAt t o = true} (p + forwardLength before after) := by
  have hsplit := splitAtByte?_forward h
  have hne : after ≠ [] := fun hnil => Nat.ne_of_lt hlt ((eq_nil_iff_of_splitAtByte? h).2.mp hnil)
  have hlonger := byteLength_forward_lt before hne
  refine ⟨⟨?_, ?_⟩, fun o ⟨hpo, hborder⟩ => ?_⟩
  · rw [forwardLength]
    omega
  · rw [isBorderAt, holdsAt_of_splitAtByte? hsplit]
    exact isBoundary_forward before after
  · -- A border between the two offsets would have stopped the walk.
    by_contra hbetween
    obtain ⟨before', after', hsplit', hboundary⟩ := exists_splitAtByte?_of_holdsAt hborder
    obtain ⟨s, rfl, hafter⟩ := exists_piece h hsplit' (Nat.le_of_lt hpo)
    have hlength := byteLength_of_splitAtByte? h
    have hlength' := byteLength_of_splitAtByte? hsplit'
    have hs : s ≠ [] := by
      rintro rfl
      rw [List.nil_append] at hafter
      rw [← hafter] at hlength'
      omega
    rw [isBoundary_eq_false_of_forward hafter hs (by rw [forwardLength] at hbetween; omega)]
      at hboundary
    exact Bool.false_ne_true hboundary

/-- **The border before.** The walk to the left leads to the greatest border before an offset. -/
theorem isGreatest_backward (hpos : 0 < p) :
    IsGreatest {o | o < p ∧ isBorderAt t o = true} (p - backwardLength before after) := by
  have hsplit := splitAtByte?_backward h
  have hbytes := (splitAtByte?_eq_some.mp h).2
  have hne : before ≠ [] := fun hnil =>
    Nat.ne_of_gt hpos ((eq_nil_iff_of_splitAtByte? h).1.mp hnil)
  have hshorter := byteLength_backward_lt hne after
  refine ⟨⟨?_, ?_⟩, fun o ⟨hop, hborder⟩ => ?_⟩
  · rw [backwardLength]
    omega
  · rw [isBorderAt, holdsAt_of_splitAtByte? hsplit]
    exact isBoundary_backward before after
  · by_contra hbetween
    obtain ⟨before', after', hsplit', hboundary⟩ := exists_splitAtByte?_of_holdsAt hborder
    obtain ⟨s, hbefore, rfl⟩ := exists_piece hsplit' h (Nat.le_of_lt hop)
    have hbytes' := (splitAtByte?_eq_some.mp hsplit').2
    have hs : s ≠ [] := by
      rintro rfl
      rw [List.reverse_nil, List.nil_append] at hbefore
      rw [hbefore] at hbytes
      omega
    rw [isBoundary_eq_false_of_backward hbefore hs (by rw [backwardLength] at hbetween; omega)]
      at hboundary
    exact Bool.false_ne_true hboundary

end Walks

/-! ### Walks from cut to cut -/

/-- Whether the rules of Unicode allow a cut at a position. -/
def isPlainCut : List Char → List Char → Bool
  | left :: before, right :: _ => splits (left :: before) (breakClass left) (breakClass right)
  | _, _ => true

/-- Whether a cut at a position is folded: a character of zero width belongs to what stands before
it, and whatever follows a joiner belongs to the joiner. -/
def isFolded (before after : List Char) : Bool :=
  after.head?.any isZeroWidth || before.head? == some joiner

/-- Inside of a text the borders of clusters are the cuts that are not folded. -/
theorem isBoundary_cons_cons (left right : Char) (before after : List Char) :
    isBoundary (left :: before) (right :: after) =
      (!isFolded (left :: before) (right :: after) &&
        isPlainCut (left :: before) (right :: after)) := by
  have hfolded : isFolded (left :: before) (right :: after) =
      (isZeroWidth right || left == joiner) := by
    rw [isFolded, List.head?_cons, List.head?_cons, Option.any_some]
    rfl
  rw [hfolded, Bool.not_or]
  rfl

/-- Whether the rules of Unicode allow a cut at a byte offset. -/
def isPlainCutAt (t : Text) (offset : Nat) : Bool := holdsAt isPlainCut t offset

/-- Whether a cut at a byte offset is folded. -/
def isFoldedAt (t : Text) (offset : Nat) : Bool := holdsAt isFolded t offset

/-- The cuts of a text by the rules of Unicode, as they can be asked for: whether there is one at a
byte offset, where the next one is, and where the one before. -/
structure PlainCuts (t : Text) where
  /-- Whether there is a cut at an offset. -/
  isCut : Nat → Bool
  /-- The cut behind an offset. -/
  next : Nat → Nat
  /-- The cut before an offset. -/
  previous : Nat → Nat
  /-- Cuts lie between characters. -/
  isSome_of_isCut : ∀ o, isCut o = true → (splitAtByte? o t).isSome = true
  /-- Both ends of the text are cuts. -/
  isCut_ends : isCut 0 = true ∧ isCut (byteLength t) = true
  isLeast_next : ∀ o < byteLength t, (splitAtByte? o t).isSome = true →
    IsLeast {q | o < q ∧ isCut q = true} (next o)
  isGreatest_previous : ∀ o > 0, (splitAtByte? o t).isSome = true →
    IsGreatest {q | q < o ∧ isCut q = true} (previous o)
  /-- Where nothing is folded, the cuts are those that the rules allow. -/
  isCut_eq : ∀ o before after, splitAtByte? o t = some (before, after) →
    isFolded before after = false → isCut o = isPlainCut before after

namespace PlainCuts

variable {t : Text} (cuts : PlainCuts t)

/-- The walk to the right: go to the next cut, and on to the next one as long as it is folded. -/
inductive ForwardTo : Nat → Nat → Prop where
  /-- The next cut is not folded or the end of the text. -/
  | stop {p : Nat} (h : ¬(cuts.next p < byteLength t ∧ isFoldedAt t (cuts.next p) = true)) :
    ForwardTo p (cuts.next p)
  /-- The next cut is folded. -/
  | skip {p q : Nat} (h : cuts.next p < byteLength t ∧ isFoldedAt t (cuts.next p) = true)
    (hq : ForwardTo (cuts.next p) q) : ForwardTo p q

/-- The walk to the left: go to the cut before, and on to the one before it as long as it is
folded. -/
inductive BackwardTo : Nat → Nat → Prop where
  /-- The cut before is not folded or the start of the text. -/
  | stop {p : Nat} (h : ¬(0 < cuts.previous p ∧ isFoldedAt t (cuts.previous p) = true)) :
    BackwardTo p (cuts.previous p)
  /-- The cut before is folded. -/
  | skip {p q : Nat} (h : 0 < cuts.previous p ∧ isFoldedAt t (cuts.previous p) = true)
    (hq : BackwardTo (cuts.previous p) q) : BackwardTo p q

/-- **Borders and cuts.** The borders of clusters are the ends of the text and the cuts that are not
folded. -/
theorem isBorderAt_iff (o : Nat) : isBorderAt t o = true ↔
    o = 0 ∨ o = byteLength t ∨ (isFoldedAt t o = false ∧ cuts.isCut o = true) := by
  rw [isBorderAt, isFoldedAt, holdsAt, holdsAt]
  cases hsplit : splitAtByte? o t with
  | none =>
    refine iff_of_false Bool.false_ne_true ?_
    rintro (rfl | rfl | ⟨-, hcut⟩)
    · have h := cuts.isSome_of_isCut 0 cuts.isCut_ends.1
      rw [hsplit] at h
      exact Bool.false_ne_true h
    · rw [splitAtByte?_length] at hsplit
      exact absurd hsplit (by simp)
    · have h := cuts.isSome_of_isCut o hcut
      rw [hsplit] at h
      exact Bool.false_ne_true h
  | some sides =>
    obtain ⟨before, after⟩ := sides
    obtain ⟨hstart, hend⟩ := eq_nil_iff_of_splitAtByte? hsplit
    have hrules := cuts.isCut_eq o before after hsplit
    rw [← hstart, ← hend]
    cases before with
    | nil => simp
    | cons left before =>
      cases after with
      | nil => simp
      | cons right after =>
        simp only [reduceCtorEq, false_or]
        rw [isBoundary_cons_cons, Bool.and_eq_true, Bool.not_eq_true']
        exact and_congr_right fun hunfolded => by rw [hrules hunfolded]

theorem isCut_of_isBorderAt {o : Nat} (h : isBorderAt t o = true) : cuts.isCut o = true := by
  rcases (cuts.isBorderAt_iff o).mp h with rfl | rfl | ⟨-, hcut⟩
  · exact cuts.isCut_ends.1
  · exact cuts.isCut_ends.2
  · exact hcut

/-- The walk to the right ends at the least border behind its start. -/
theorem exists_forwardTo {p : Nat} (hp : (splitAtByte? p t).isSome = true)
    (hlt : p < byteLength t) :
    ∃ q, cuts.ForwardTo p q ∧ IsLeast {o | p < o ∧ isBorderAt t o = true} q := by
  obtain ⟨hnext, hleast⟩ := cuts.isLeast_next p hlt hp
  by_cases hskip : cuts.next p < byteLength t ∧ isFoldedAt t (cuts.next p) = true
  · obtain ⟨q, hwalk, hq, hlower⟩ :=
      exists_forwardTo (cuts.isSome_of_isCut _ hnext.2) hskip.1
    refine ⟨q, .skip hskip hwalk, ⟨Nat.lt_trans hnext.1 hq.1, hq.2⟩, fun o ⟨hpo, hborder⟩ => ?_⟩
    refine hlower ⟨Nat.lt_of_le_of_ne (hleast ⟨hpo, cuts.isCut_of_isBorderAt hborder⟩) ?_, hborder⟩
    rintro rfl
    rcases (cuts.isBorderAt_iff _).mp hborder with hzero | hend | ⟨hunfolded, -⟩
    · exact Nat.not_lt_zero p (hzero ▸ hnext.1)
    · exact Nat.ne_of_lt hskip.1 hend
    · exact Bool.false_ne_true (hunfolded.symm.trans hskip.2)
  · refine ⟨_, .stop hskip, ⟨hnext.1, (cuts.isBorderAt_iff _).mpr ?_⟩, fun o ⟨hpo, hborder⟩ =>
      hleast ⟨hpo, cuts.isCut_of_isBorderAt hborder⟩⟩
    have hle : cuts.next p ≤ byteLength t := hleast ⟨hlt, cuts.isCut_ends.2⟩
    rcases Nat.lt_or_eq_of_le hle with hinside | hend
    · refine Or.inr (Or.inr ⟨Bool.eq_false_of_not_eq_true fun hfolded => ?_, hnext.2⟩)
      exact hskip ⟨hinside, hfolded⟩
    · exact Or.inr (Or.inl hend)
termination_by byteLength t - p
decreasing_by
  have := hnext.1
  omega

/-- The walk to the left ends at the greatest border before its start. -/
theorem exists_backwardTo {p : Nat} (hp : (splitAtByte? p t).isSome = true) (hpos : 0 < p) :
    ∃ q, cuts.BackwardTo p q ∧ IsGreatest {o | o < p ∧ isBorderAt t o = true} q := by
  obtain ⟨hprevious, hgreatest⟩ := cuts.isGreatest_previous p hpos hp
  by_cases hskip : 0 < cuts.previous p ∧ isFoldedAt t (cuts.previous p) = true
  · obtain ⟨q, hwalk, hq, hupper⟩ :=
      exists_backwardTo (cuts.isSome_of_isCut _ hprevious.2) hskip.1
    refine ⟨q, .skip hskip hwalk, ⟨Nat.lt_trans hq.1 hprevious.1, hq.2⟩,
      fun o ⟨hop, hborder⟩ => ?_⟩
    have hle : o ≤ cuts.previous p := hgreatest ⟨hop, cuts.isCut_of_isBorderAt hborder⟩
    refine hupper ⟨Nat.lt_of_le_of_ne hle ?_, hborder⟩
    rintro rfl
    rcases (cuts.isBorderAt_iff _).mp hborder with hzero | hend | ⟨hunfolded, -⟩
    · exact Nat.ne_of_gt hskip.1 hzero
    · have hinside : p ≤ byteLength t := by
        obtain ⟨⟨before, after⟩, hsplit⟩ := Option.isSome_iff_exists.mp hp
        have := byteLength_of_splitAtByte? hsplit
        omega
      have := hprevious.1
      omega
    · exact Bool.false_ne_true (hunfolded.symm.trans hskip.2)
  · refine ⟨_, .stop hskip, ⟨hprevious.1, (cuts.isBorderAt_iff _).mpr ?_⟩, fun o ⟨hop, hborder⟩ =>
      hgreatest ⟨hop, cuts.isCut_of_isBorderAt hborder⟩⟩
    rcases Nat.eq_zero_or_pos (cuts.previous p) with hstart | hinside
    · exact Or.inl hstart
    · refine Or.inr (Or.inr ⟨Bool.eq_false_of_not_eq_true fun hfolded => ?_, hprevious.2⟩)
      exact hskip ⟨hinside, hfolded⟩
termination_by p
decreasing_by exact hprevious.1

theorem isPlainCutAt_ends (t : Text) :
    isPlainCutAt t 0 = true ∧ isPlainCutAt t (byteLength t) = true := by
  have hstart : splitAtByte? 0 t = some ([], t) := splitAtByte?_eq_some.mpr ⟨rfl, rfl⟩
  refine ⟨holdsAt_of_splitAtByte? hstart, ?_⟩
  rw [isPlainCutAt, holdsAt_of_splitAtByte? (splitAtByte?_length t)]
  cases t.reverse <;> rfl

/-- The cuts that the rules allow, found by trying one offset after the other. -/
def ofRules (t : Text) : PlainCuts t where
  isCut := isPlainCutAt t
  next o :=
    if h : o < byteLength t then
      Nat.find (p := fun q => o < q ∧ isPlainCutAt t q = true)
        ⟨byteLength t, h, (isPlainCutAt_ends t).2⟩
    else byteLength t
  previous o := Nat.findGreatest (fun q => isPlainCutAt t q = true) (o - 1)
  isSome_of_isCut o h := by
    obtain ⟨before, after, hsplit, -⟩ := exists_splitAtByte?_of_holdsAt h
    rw [hsplit]
    rfl
  isCut_ends := isPlainCutAt_ends t
  isLeast_next o h _ := by
    rw [dif_pos h]
    exact ⟨Nat.find_spec _, fun q hq => Nat.find_min' _ hq⟩
  isGreatest_previous o h _ := by
    refine ⟨⟨?_, ?_⟩, fun q hq => Nat.le_findGreatest (Nat.le_sub_one_of_lt hq.1) hq.2⟩
    · exact Nat.lt_of_le_of_lt (Nat.findGreatest_le _) (Nat.sub_one_lt_of_lt h)
    · exact Nat.findGreatest_spec (P := fun q => isPlainCutAt t q = true) (Nat.zero_le _)
        (isPlainCutAt_ends t).1
  isCut_eq o before after h _ := holdsAt_of_splitAtByte? h

end PlainCuts

/-! ### Clusters -/

/-- The byte offsets at which parts start that stand one behind the other from an offset on. -/
def startsFrom (offset : Nat) : List Text → List Nat
  | [] => []
  | part :: parts => offset :: startsFrom (offset + byteLength part) parts

theorem startsFrom_append (offset : Nat) (parts parts' : List Text) :
    startsFrom offset (parts ++ parts') =
      startsFrom offset parts ++ startsFrom (offset + byteLength parts.flatten) parts' := by
  induction parts generalizing offset with
  | nil => rfl
  | cons part parts ih =>
    rw [List.cons_append, startsFrom, startsFrom, ih, List.flatten_cons, byteLength_append,
      Nat.add_assoc]
    rfl

/-- The byte offsets at which a walk to the left stops that goes from border to border. -/
def stopsBackward : List Char → List Char → List Nat
  | [], _ => []
  | c :: before, after =>
    byteLength (backward (c :: before) after).1 ::
      stopsBackward (backward (c :: before) after).1 (backward (c :: before) after).2
termination_by before => before.length
decreasing_by exact length_backward_lt c before after

/-- **Where clusters start.** Behind a border they start at this one and at all that follow. -/
theorem mem_startsFrom_clustersAfter {t : Text} {p : Nat} {before after : List Char}
    (h : splitAtByte? p t = some (before, after)) (hborder : isBorderAt t p = true) (o : Nat) :
    o ∈ startsFrom p (clustersAfter before after) ↔
      p ≤ o ∧ o < byteLength t ∧ isBorderAt t o = true := by
  induction hlength : after.length using Nat.strong_induction_on
    generalizing p before after with
  | _ n ih =>
    subst hlength
    cases after with
    | nil =>
      have hend := (eq_nil_iff_of_splitAtByte? h).2.mp rfl
      rw [clustersAfter, startsFrom]
      refine iff_of_false List.not_mem_nil fun ho => ?_
      omega
    | cons c after =>
      have hlt : p < byteLength t := by
        have hlength := byteLength_of_splitAtByte? h
        have := byteLength_pos (List.cons_ne_nil c after)
        omega
      obtain ⟨⟨hpq, hnext⟩, hleast⟩ := isLeast_forward h hlt
      obtain ⟨piece, hafter, hclusters⟩ := clustersAfter_eq_cons before c after
      have hpiece : byteLength piece = forwardLength before (c :: after) := by
        have hlength := congrArg byteLength hafter
        rw [byteLength_append] at hlength
        rw [forwardLength]
        omega
      have hrest := ih _ (length_forward_lt before c after) (splitAtByte?_forward h) hnext rfl
      rw [hclusters, startsFrom, List.mem_cons, hpiece, hrest]
      constructor
      · rintro (rfl | ⟨hle, hinside, ho⟩)
        · exact ⟨Nat.le_refl _, hlt, hborder⟩
        · exact ⟨Nat.le_of_lt (Nat.lt_of_lt_of_le hpq hle), hinside, ho⟩
      · rintro ⟨hle, hinside, ho⟩
        rcases Nat.eq_or_lt_of_le hle with heq | hpo
        · exact Or.inl heq.symm
        · exact Or.inr ⟨hleast ⟨hpo, ho⟩, hinside, ho⟩

/-- A walk to the left stops where the clusters before its start begin, the last one first. -/
theorem stopsBackward_eq : (before after : List Char) →
    stopsBackward before after = (startsFrom 0 (clusters before.reverse)).reverse
  | [], after => by
    rw [stopsBackward]
    rfl
  | c :: before, after => by
    rw [stopsBackward, stopsBackward_eq _ (backward (c :: before) after).2,
      clusters_before (List.cons_ne_nil c before) after, startsFrom_append, flatten_clusters,
      List.reverse_append, byteLength_reverse, Nat.zero_add]
    rfl
termination_by before => before.length
decreasing_by exact length_backward_lt c before after

/-- **One segmentation of a text.** From any position the walks to the right and to the left lead to
the next border and to the one before, and so do the walks over the folded cuts; the borders are the
ends of the text and the cuts that are not folded; and the clusters are pieces of the text that
start at the borders, at which a walk from the end of the text to the left stops as well. -/
theorem one_segmentation {t : Text} (cuts : PlainCuts t) :
    (∀ p before after, splitAtByte? p t = some (before, after) →
      (p < byteLength t →
        IsLeast {o | p < o ∧ isBorderAt t o = true} (p + forwardLength before after) ∧
          cuts.ForwardTo p (p + forwardLength before after)) ∧
      (0 < p →
        IsGreatest {o | o < p ∧ isBorderAt t o = true} (p - backwardLength before after) ∧
          cuts.BackwardTo p (p - backwardLength before after))) ∧
    (∀ o, isBorderAt t o = true ↔
      o = 0 ∨ o = byteLength t ∨ (isFoldedAt t o = false ∧ cuts.isCut o = true)) ∧
    (∀ cluster ∈ clusters t, cluster ≠ []) ∧ (clusters t).flatten = t ∧
    (∀ o, o ∈ startsFrom 0 (clusters t) ↔ o < byteLength t ∧ isBorderAt t o = true) ∧
    stopsBackward t.reverse [] = (startsFrom 0 (clusters t)).reverse := by
  refine ⟨fun p before after h => ⟨fun hlt => ?_, fun hpos => ?_⟩, cuts.isBorderAt_iff,
    fun cluster => ne_nil_of_mem_clusters, flatten_clusters t, fun o => ?_, ?_⟩
  · have hleast := isLeast_forward h hlt
    obtain ⟨q, hwalk, hq⟩ := cuts.exists_forwardTo (by rw [h]; rfl) hlt
    exact ⟨hleast, hq.unique hleast ▸ hwalk⟩
  · have hgreatest := isGreatest_backward h hpos
    obtain ⟨q, hwalk, hq⟩ := cuts.exists_backwardTo (by rw [h]; rfl) hpos
    exact ⟨hgreatest, hq.unique hgreatest ▸ hwalk⟩
  · have hstart : splitAtByte? 0 t = some ([], t) := splitAtByte?_eq_some.mpr ⟨rfl, rfl⟩
    have hmem := mem_startsFrom_clustersAfter hstart (holdsAt_of_splitAtByte? hstart) o
    rw [clusters, hmem]
    exact and_iff_right (Nat.zero_le o)
  · rw [stopsBackward_eq, List.reverse_reverse]

/-- A joiner between two letters: the rules of Unicode allow a cut behind it, which is folded. So
the walk from the inside of the cluster to its end passes over that cut, and so does the walk
back. -/
def joinedLetters : Text := ['a', joiner, '中', 'b']

theorem one_segmentation_joinedLetters :
    IsLeast {o | 1 < o ∧ isBorderAt joinedLetters o = true} 7 ∧
      (PlainCuts.ofRules joinedLetters).ForwardTo 1 7 ∧
      IsGreatest {o | o < 7 ∧ isBorderAt joinedLetters o = true} 0 ∧
      (PlainCuts.ofRules joinedLetters).BackwardTo 7 0 ∧
      (PlainCuts.ofRules joinedLetters).isCut 4 = true ∧ isFoldedAt joinedLetters 4 = true ∧
      startsFrom 0 (clusters joinedLetters) = [0, 7] := by
  have hwalks := (one_segmentation (PlainCuts.ofRules joinedLetters)).1
  obtain ⟨hleast, hforward⟩ :=
    (hwalks 1 ['a'] [joiner, '中', 'b'] (splitAtByte?_eq_some.mpr (by decide))).1 (by decide)
  obtain ⟨hgreatest, hbackward⟩ :=
    (hwalks 7 ['中', joiner, 'a'] ['b'] (splitAtByte?_eq_some.mpr (by decide))).2 (by decide)
  have hlengths : forwardLength ['a'] [joiner, '中', 'b'] = 6 ∧
      backwardLength ['中', joiner, 'a'] ['b'] = 7 := by decide +kernel
  rw [hlengths.1] at hleast hforward
  rw [hlengths.2] at hgreatest hbackward
  exact ⟨hleast, hforward, hgreatest, hbackward, by decide +kernel, by decide +kernel,
    by decide +kernel⟩

end Typeline
