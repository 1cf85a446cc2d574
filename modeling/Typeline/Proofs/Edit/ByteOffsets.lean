import Typeline.Proofs.Edit.CursorOffset

/-!
# Cutting a text at byte offsets

A text may be cut at byte offsets that are computed on the way. Much can then go wrong that cannot
on two lists of characters: an offset may lie inside of a character or past the end, the end of a
piece before its start, a difference may be negative, and a loop over offsets may never end. Here
all of that has the outcome `none`, as every loop is given a number of rounds in which it has to
end.

Asking for the clusters next to an offset takes such a loop, which goes over the folded ones among
the cuts that Unicode allows. At an offset between two characters it always has an outcome, within
no more rounds than the text has bytes.

## Main definitions

* `repeatWhile?` : a loop, which has no outcome if it does not end in time.
* `cutOut?`, `replaced?` : a piece of a text between two offsets, and the text with another one
  there.
* `swapped?` : the text with two pieces swapped.
* `PlainCuts.border?` : whether an offset is a border of clusters.
* `PlainCuts.nextLength?`, `PlainCuts.previousLength?` : the clusters next to an offset.

## Main results

* `PlainCuts.border?_eq`, `PlainCuts.nextLength?_eq`, `PlainCuts.previousLength?_eq` : their
  outcomes.
-/

namespace Typeline

/-! ### Loops, differences and cuts that may fail -/

section Loops

variable {α : Type} (test : α → Option Bool) (step : α → Option α)

/-- Go on by steps as long as a test holds, for a number of rounds. There is no outcome if a test or
a step has none, or if the test still holds in the last round. -/
def repeatWhile? : (rounds : Nat) → α → Option α
  | 0, _ => none
  | rounds + 1, a => do
    if ← test a then repeatWhile? rounds (← step a) else some a

variable {test step} {rounds : Nat} {a b : α}

theorem repeatWhile?_of_false (h : test a = some false) :
    repeatWhile? test step (rounds + 1) a = some a := by
  rw [repeatWhile?, h]
  rfl

theorem repeatWhile?_of_true (h : test a = some true) (hstep : step a = some b) :
    repeatWhile? test step (rounds + 1) a = repeatWhile? test step rounds b := by
  rw [repeatWhile?, h, Option.bind_eq_bind, Option.bind_some, if_pos rfl, hstep]
  rfl

end Loops

/-- A difference, which has no outcome if it is negative. -/
def sub? (m n : Nat) : Option Nat := if n ≤ m then some (m - n) else none

theorem sub?_of_le {m n : Nat} (h : n ≤ m) : sub? m n = some (m - n) := if_pos h

/-- The texts before and after an offset. -/
def cut? (t : Text) (o : Nat) : Option (Text × Text) :=
  (splitAtByte? o t).map fun sides => (sides.1.reverse, sides.2)

/-- The text before a piece between two offsets, the piece, and the text after it. -/
def cutOut? (t : Text) (i j : Nat) : Option (Text × Text × Text) := do
  guard (i ≤ j)
  let (start, after) ← cut? t j
  let (before, piece) ← cut? start i
  return (before, piece, after)

/-- The text with another piece between two offsets. -/
def replaced? (t : Text) (i j : Nat) (s : Text) : Option Text := do
  let (before, _, after) ← cutOut? t i j
  return before ++ s ++ after

/-- The text with the pieces on the two sides of an offset swapped. -/
def swapped? (t : Text) (i j k : Nat) : Option Text := do
  let (_, second, _) ← cutOut? t j k
  let (_, first, _) ← cutOut? t i j
  replaced? t i k (second ++ first)

section Cuts

variable {t s m u : Text} {i j k : Nat}

theorem cut?_of_splitAtByte? {before after : List Char}
    (h : splitAtByte? i t = some (before, after)) : cut? t i = some (before.reverse, after) := by
  rw [cut?, h, Option.map_some]

theorem cut?_append (s u : Text) : cut? (s ++ u) (byteLength s) = some (s, u) := by
  have hsplit : splitAtByte? (byteLength s) (s ++ u) = some (s.reverse, u) :=
    splitAtByte?_eq_some.mpr ⟨by rw [List.reverse_reverse], byteLength_reverse s⟩
  rw [cut?_of_splitAtByte? hsplit, List.reverse_reverse]

theorem cutOut?_eq (ht : t = s ++ m ++ u) (hi : i = byteLength s) (hj : j = i + byteLength m) :
    cutOut? t i j = some (s, m, u) := by
  have hguard : (guard (i ≤ j) : Option Unit) = some () :=
    if_pos (hj ▸ Nat.le_add_right _ _)
  rw [cutOut?, hguard, ht, hj, hi, ← byteLength_append]
  simp only [cut?_append, Option.bind_eq_bind, Option.bind_some, Option.pure_def]

/-- **Replacing a piece.** -/
theorem replaced?_eq (ht : t = s ++ m ++ u) (hi : i = byteLength s) (hj : j = i + byteLength m)
    (r : Text) : replaced? t i j r = some (s ++ r ++ u) := by
  rw [replaced?, cutOut?_eq ht hi hj]
  rfl

/-- **Swapping two pieces.** -/
theorem swapped?_eq {first second : Text} (ht : t = s ++ first ++ second ++ u)
    (hi : i = byteLength s) (hj : j = i + byteLength first) (hk : k = j + byteLength second) :
    swapped? t i j k = some (s ++ (second ++ first) ++ u) := by
  have hfront : j = byteLength (s ++ first) := by rw [byteLength_append, hj, hi]
  have hboth : k = i + byteLength (first ++ second) := by
    rw [byteLength_append, hk, hj, Nat.add_assoc]
  have htail : t = s ++ first ++ (second ++ u) := by rw [ht, List.append_assoc (s ++ first)]
  have hmiddle : t = s ++ (first ++ second) ++ u := by rw [ht, List.append_assoc s]
  rw [swapped?, cutOut?_eq ht hfront hk, cutOut?_eq htail hi hj]
  exact replaced?_eq hmiddle hi hboth _

end Cuts

/-! ### Clusters next to an offset -/

private theorem backwardLength_eq (before after : List Char) :
    backwardLength before after = byteLength (partBefore before after) := by
  have hbytes := congrArg byteLength (partBefore_spec before after).1
  rw [byteLength_append, byteLength_reverse] at hbytes
  rw [backwardLength]
  omega

theorem forwardLength_eq (before after : List Char) :
    forwardLength before after = byteLength (partAfter before after) := by
  have hbytes := congrArg byteLength (partAfter_spec before after)
  rw [byteLength_append] at hbytes
  rw [forwardLength]
  omega

theorem backwardLength_pos {before : List Char} (h : before ≠ []) (after : List Char) :
    0 < backwardLength before after := by
  rw [backwardLength_eq]
  exact byteLength_pos (partBefore_ne_nil h after)

theorem forwardLength_pos (before : List Char) {after : List Char} (h : after ≠ []) :
    0 < forwardLength before after := by
  rw [forwardLength_eq]
  exact byteLength_pos (partAfter_ne_nil before h)

/-- Whether a cut at an offset is folded. -/
def folded? (t : Text) (o : Nat) : Option Bool :=
  (splitAtByte? o t).map fun sides => isFolded sides.1 sides.2

theorem folded?_of_isSome {t : Text} {o : Nat} (h : (splitAtByte? o t).isSome = true) :
    folded? t o = some (isFoldedAt t o) := by
  obtain ⟨⟨before, after⟩, hsplit⟩ := Option.isSome_iff_exists.mp h
  rw [folded?, isFoldedAt, holdsAt_of_splitAtByte? hsplit, hsplit]
  rfl

namespace PlainCuts

variable {t : Text} (cuts : PlainCuts t) {p q : Nat} {before after : List Char}

/-- Whether an offset is a border of clusters. -/
def border? (o : Nat) : Option Bool :=
  if o = 0 ∨ o = byteLength t then some true
  else if (splitAtByte? o t).isNone then some false
  else (folded? t o).map fun folded => !folded && cuts.isCut o

/-- The number of bytes up to the next border. -/
def nextLength? (p : Nat) : Option Nat :=
  if byteLength t ≤ p then some 0
  else do
    let stop ← repeatWhile? (fun o => if o < byteLength t then folded? t o else some false)
      (fun o => some (cuts.next o)) (byteLength t) (cuts.next p)
    sub? stop p

/-- The number of bytes back to the border before. -/
def previousLength? (p : Nat) : Option Nat :=
  if min p (byteLength t) = 0 then some 0
  else do
    let start ← repeatWhile? (fun o => if 0 < o then folded? t o else some false)
      (fun o => some (cuts.previous o)) (byteLength t) (cuts.previous (min p (byteLength t)))
    sub? (min p (byteLength t)) start

theorem border?_eq (o : Nat) : cuts.border? o = some (isBorderAt t o) := by
  have hiff := cuts.isBorderAt_iff o
  rw [border?]
  split
  · next hend => rw [hiff.mpr (by tauto)]
  · next hinside =>
    split
    · next hnone =>
      have hnot : isBorderAt t o = false := by
        rw [isBorderAt, holdsAt, Option.isNone_iff_eq_none.mp hnone]
      rw [hnot]
    · next hsome =>
      have hcut := Option.isSome_iff_ne_none.mpr (mt Option.isNone_iff_eq_none.mpr hsome)
      rw [folded?_of_isSome hcut, Option.map_some, Option.some_inj, Bool.eq_iff_iff,
        Bool.and_eq_true, Bool.not_eq_true', hiff]
      tauto

/-- The walk over folded cuts to the right, as a loop. Each round passes over a byte at least. -/
theorem repeatWhile?_of_forwardTo (h : cuts.ForwardTo p q) (hlt : p < byteLength t)
    (hp : (splitAtByte? p t).isSome = true) {rounds : Nat} (hrounds : byteLength t ≤ p + rounds) :
    repeatWhile? (fun o => if o < byteLength t then folded? t o else some false)
      (fun o => some (cuts.next o)) rounds (cuts.next p) = some q := by
  obtain ⟨rounds, rfl⟩ := Nat.exists_eq_add_one.mpr (show 0 < rounds by omega)
  induction h generalizing rounds with
  | @stop p h =>
    have hnext := cuts.isSome_of_isCut _ (cuts.isLeast_next p hlt hp).1.2
    refine repeatWhile?_of_false ?_
    split
    · next hinside =>
      rw [folded?_of_isSome hnext]
      exact congrArg some (Bool.eq_false_of_not_eq_true fun hfolded => h ⟨hinside, hfolded⟩)
    · rfl
  | @skip p q h _ ih =>
    obtain ⟨hbehind, hcut⟩ := (cuts.isLeast_next p hlt hp).1
    have hnext := cuts.isSome_of_isCut _ hcut
    obtain ⟨rounds, rfl⟩ := Nat.exists_eq_add_one.mpr (show 0 < rounds by have := h.1; omega)
    refine Eq.trans (repeatWhile?_of_true ?_ rfl) (ih h.1 hnext rounds (by omega))
    rw [if_pos h.1, folded?_of_isSome hnext, h.2]

/-- The walk over folded cuts to the left, as a loop. -/
theorem repeatWhile?_of_backwardTo (h : cuts.BackwardTo p q) (hpos : 0 < p)
    (hp : (splitAtByte? p t).isSome = true) {rounds : Nat} (hrounds : p ≤ rounds) :
    repeatWhile? (fun o => if 0 < o then folded? t o else some false)
      (fun o => some (cuts.previous o)) rounds (cuts.previous p) = some q := by
  obtain ⟨rounds, rfl⟩ := Nat.exists_eq_add_one.mpr (show 0 < rounds by omega)
  induction h generalizing rounds with
  | @stop p h =>
    have hprevious := cuts.isSome_of_isCut _ (cuts.isGreatest_previous p hpos hp).1.2
    refine repeatWhile?_of_false ?_
    split
    · next hinside =>
      rw [folded?_of_isSome hprevious]
      exact congrArg some (Bool.eq_false_of_not_eq_true fun hfolded => h ⟨hinside, hfolded⟩)
    · rfl
  | @skip p q h _ ih =>
    obtain ⟨hbefore, hcut⟩ := (cuts.isGreatest_previous p hpos hp).1
    have hprevious := cuts.isSome_of_isCut _ hcut
    obtain ⟨rounds, rfl⟩ := Nat.exists_eq_add_one.mpr (show 0 < rounds by have := h.1; omega)
    refine Eq.trans (repeatWhile?_of_true ?_ rfl) (ih h.1 hprevious rounds (by omega))
    rw [if_pos h.1, folded?_of_isSome hprevious, h.2]

variable (h : splitAtByte? p t = some (before, after))

include h

/-- **The cluster behind an offset.** -/
theorem nextLength?_eq : cuts.nextLength? p = some (forwardLength before after) := by
  have hlength := byteLength_of_splitAtByte? h
  rw [nextLength?]
  split
  · next hend =>
    have hnil := (eq_nil_iff_of_splitAtByte? h).2.mpr (by omega)
    rw [hnil]
    rfl
  · next hinside =>
    have hlt := Nat.lt_of_not_le hinside
    have hsome : (splitAtByte? p t).isSome = true := by rw [h]; rfl
    obtain ⟨q, hwalk, hq⟩ := cuts.exists_forwardTo hsome hlt
    rw [cuts.repeatWhile?_of_forwardTo hwalk hlt hsome (by omega),
      hq.unique (isLeast_forward h hlt)]
    refine (sub?_of_le (Nat.le_add_right _ _)).trans ?_
    rw [Nat.add_sub_cancel_left]

/-- **The cluster before an offset.** -/
theorem previousLength?_eq : cuts.previousLength? p = some (backwardLength before after) := by
  have hlength := byteLength_of_splitAtByte? h
  have hbytes := Line.byteLength_before_of_splitAtByte? h
  rw [previousLength?, Nat.min_eq_left (by omega)]
  split
  · next hstart =>
    have hnil := (eq_nil_iff_of_splitAtByte? h).1.mpr hstart
    rw [hnil]
    rfl
  · next hinside =>
    have hpos := Nat.pos_of_ne_zero hinside
    have hsome : (splitAtByte? p t).isSome = true := by rw [h]; rfl
    obtain ⟨q, hwalk, hq⟩ := cuts.exists_backwardTo hsome hpos
    rw [cuts.repeatWhile?_of_backwardTo hwalk hpos hsome (by omega),
      hq.unique (isGreatest_backward h hpos)]
    refine (sub?_of_le (Nat.sub_le _ _)).trans ?_
    rw [Nat.sub_sub_self]
    rw [backwardLength]
    omega

end PlainCuts

end Typeline
