import Typeline.Proofs.Text.Sequels
import Typeline.Proofs.Text.Sums

/-!
# Columns of characters that are printed one by one

A terminal knows nothing of clusters. It adds up the columns of the characters that it prints, and
lets every character behind a joiner join what stands before it. The columns of a cluster are those
of the whole sequence instead, in which a selector may choose another form, letters may share a
column and emoji may be drawn as one, and they are two at most.

The two agree, up to that limit, for the ordinary clusters. If nothing in a sequence changes how
another character is shown, its columns are those of the characters. If a sequence starts with a
wide character, it takes two columns at least in both ways, however it goes on.

## Main definitions

* `printedWidth` : the columns of characters that are printed one by one.
* `WideFirst` : a sequence that starts with a wide character.

## Main results

* `addsUp_printedWidth` : printed columns add up at the borders of clusters.
* `clusterWidth_of_steady`, `clusterWidth_of_wideFirst` : clusters that are as wide as their
  characters.
-/

namespace Typeline

/-! ### Printed columns -/

/-- Whether the last character of a text is a joiner; `joined` if one stands before the text. -/
def endsJoined (joined : Bool) (t : Text) : Bool := t.foldl (fun _ c => c == joiner) joined

/-- The columns of a text that is printed character by character; `joined` if a joiner stands
before it. -/
def printedFrom (joined : Bool) : Text → Nat
  | [] => 0
  | c :: t => (if joined then 0 else charWidth c) + printedFrom (c == joiner) t

/-- The columns of a text that is printed character by character. -/
def printedWidth (t : Text) : Nat := printedFrom false t

theorem printedFrom_append (joined : Bool) (s t : Text) :
    printedFrom joined (s ++ t) = printedFrom joined s + printedFrom (endsJoined joined s) t := by
  induction s generalizing joined with
  | nil => exact (Nat.zero_add _).symm
  | cons c s ih =>
    rw [List.cons_append, printedFrom, printedFrom, ih, Nat.add_assoc]
    rfl

/-- No border stands behind a joiner, unless the text ends there. -/
theorem endsJoined_of_isBoundary {s : Text} {c : Char} {t : Text}
    (h : isBoundary s.reverse (c :: t) = true) : endsJoined false s = false := by
  cases hs : s.reverse with
  | nil =>
    rw [List.reverse_eq_nil_iff.mp hs]
    rfl
  | cons d before =>
    rw [hs, isBoundary, Bool.and_eq_true, Bool.and_eq_true] at h
    rw [List.reverse_eq_cons_iff.mp hs, endsJoined, List.foldl_append]
    change (d == joiner) = false
    simpa using h.1.2

theorem printedWidth_append {s t : Text} (h : isBoundary s.reverse t = true) :
    printedWidth (s ++ t) = printedWidth s + printedWidth t := by
  rw [printedWidth, printedFrom_append]
  cases t with
  | nil => rfl
  | cons c t =>
    rw [endsJoined_of_isBoundary h]
    rfl

theorem addsUp_printedWidth : AddsUp printedWidth where
  nil := rfl
  append _ _ := printedWidth_append

/-- Without a joiner the printed columns are those of the characters. -/
theorem printedWidth_of_no_joiner {t : Text} (h : ∀ c ∈ t, c ≠ joiner) :
    printedWidth t = (t.map charWidth).sum := by
  rw [printedWidth]
  induction t with
  | nil => rfl
  | cons c t ih =>
    have hc : (c == joiner) = false := beq_eq_false_iff_ne.mpr (h c List.mem_cons_self)
    rw [printedFrom, hc, ih fun d hd => h d (List.mem_cons_of_mem c hd), if_neg Bool.false_ne_true,
      List.map_cons, List.sum_cons]

private theorem charWidth_le_printedWidth (c : Char) (t : Text) :
    charWidth c ≤ printedWidth (c :: t) := by
  rw [printedWidth, printedFrom, if_neg Bool.false_ne_true]
  exact Nat.le_add_right _ _

/-! ### Sequences that start with a wide character -/

/-- A sequence that starts with a wide character, and no text selector makes it narrow. -/
def WideFirst : Text → Prop
  | [] => False
  | c :: t => charWidth c = 2 ∧ t.head? ≠ some '\uFE0E'

instance : (t : Text) → Decidable (WideFirst t)
  | [] => inferInstanceAs (Decidable False)
  | c :: t => inferInstanceAs (Decidable (charWidth c = 2 ∧ t.head? ≠ some '\uFE0E'))

theorem WideFirst.two_le_sequenceWidth {t : Text} (h : WideFirst t) : 2 ≤ sequenceWidth t := by
  cases t with
  | nil => exact h.elim
  | cons c t =>
    have hstep := (keepsPromise_widthBefore c (sequenceFold t).2).two_le h.1
      fun htext => h.2 (head?_of_text htext)
    have hrest := promise_sequenceFold t
    rw [sequenceWidth, sequenceFold_cons]
    dsimp only
    omega

theorem WideFirst.two_le_printedWidth {t : Text} (h : WideFirst t) : 2 ≤ printedWidth t := by
  cases t with
  | nil => exact h.elim
  | cons c t => exact h.1 ▸ charWidth_le_printedWidth c t

/-! ### Columns that are cut off at two -/

/-- Columns that are cut off at two may be cut off in each part before. -/
theorem min_two_sum (widths : List Nat) :
    min 2 widths.sum = min 2 (widths.map (min 2)).sum := by
  induction widths with
  | nil => rfl
  | cons width widths ih =>
    rw [List.map_cons, List.sum_cons, List.sum_cons]
    omega

private theorem charWidth_of_calm {c : Char} (hcontrol : isControl c = false)
    (hshaper : isShaper c = false) : charWidth c = min 2 (glyphWidth c) := by
  rw [isShaper, Bool.or_eq_false_iff] at hshaper
  rw [charWidth, isZeroWidth, hcontrol, hshaper.2]
  by_cases hglyph : glyphWidth c = 0
  · rw [hglyph]
    rfl
  · rw [if_neg (by simpa using hglyph)]

theorem Steady.min_two_eq {t : Text} (h : Steady t) :
    min 2 (sequenceWidth t) = min 2 (printedWidth t) := by
  have hjoiner : ∀ c ∈ t, c ≠ joiner := by
    rintro c hc rfl
    exact absurd (h.calm _ hc).2 (by decide)
  rw [sequenceWidth, h.sequenceFold_eq.1, Int.toNat_natCast, min_two_sum, List.map_map,
    printedWidth_of_no_joiner hjoiner]
  congr 2
  exact List.map_congr_left fun c hc => (charWidth_of_calm (h.calm c hc).1 (h.calm c hc).2).symm

/-! ### Clusters -/

/-- ASCII characters make no sequences. -/
theorem sequenceFold_of_ascii {t : Text} (hascii : isAscii t = true)
    (hcontrol : ∀ c ∈ t, isControl c = false) : sequenceFold t = ((t.length : Int), .plain) := by
  induction t with
  | nil => rfl
  | cons c t ih =>
    rw [isAscii, List.all_cons, Bool.and_eq_true, decide_eq_true_eq] at hascii
    have hc := hcontrol c List.mem_cons_self
    have hfeed : c ≠ '\n' := by
      rintro rfl
      exact absurd hc (by decide)
    have hstep : widthBefore c .plain = (1, .plain) := by
      simp only [widthBefore, Sequel.selector?, reduceCtorEq, false_and, if_false, and_false]
      rw [if_pos (by omega), if_neg hfeed]
    rw [sequenceFold_cons, ih hascii.2 fun d hd => hcontrol d (List.mem_cons_of_mem c hd), hstep,
      List.length_cons]
    rfl

/-- The columns of a cluster without control characters are those of the sequence, but two at
most. -/
theorem clusterWidth_eq_min {t : Text} (h : ∀ c ∈ t, isControl c = false) :
    clusterWidth t = min 2 (sequenceWidth t) := by
  rw [clusterWidth]
  split
  · next hascii =>
    have hshown : t.countP (fun c => !isAsciiControl c) = t.length := by
      rw [List.countP_eq_length]
      intro c hc
      have hcontrol := h c hc
      simp only [isControl, isAsciiControl, Bool.or_eq_false_iff, Bool.and_eq_false_iff,
        decide_eq_false_iff_not, Bool.not_eq_true', beq_eq_false_iff_ne] at hcontrol ⊢
      omega
    rw [sequenceWidth, sequenceFold_of_ascii hascii h, hshown, Int.toNat_natCast]
  · rfl

theorem clusterWidth_of_steady {t : Text} (h : Steady t) :
    clusterWidth t = min 2 (printedWidth t) := by
  rw [clusterWidth_eq_min fun c hc => (h.calm c hc).1, h.min_two_eq]

theorem clusterWidth_of_wideFirst {t : Text} (hcontrol : ∀ c ∈ t, isControl c = false)
    (h : WideFirst t) : clusterWidth t = min 2 (printedWidth t) := by
  rw [clusterWidth_eq_min hcontrol, Nat.min_eq_left h.two_le_sequenceWidth,
    Nat.min_eq_left h.two_le_printedWidth]

end Typeline
