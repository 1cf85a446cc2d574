import Typeline.History.Basic
import Typeline.Proofs.Edit.Likeness

/-!
# Histories that are alike

A history is changed by counting: whether an entry makes room, which entry is overwritten and which
one is recalled depends on the number of entries and on the place in the history, never on what an
entry says. So histories whose entries are alike stay so during an edit.

## Main definitions

* `Likeness.Histories` : histories with entries alike.

## Main results

* `Likeness.Histories.browse` : browsing by one entry.
-/

namespace Typeline

section Forall₂

variable {α β : Type} {R : α → β → Prop} {l : List α} {l' : List β}

/-- Lists that are related have related elements, place by place. -/
theorem rel_getElem?_of_forall₂ (h : List.Forall₂ R l l') (i : Nat) :
    Option.Rel R l[i]? l'[i]? := by
  induction h generalizing i with
  | nil => exact .none
  | cons hab _ ih =>
    cases i with
    | zero => exact .some hab
    | succ i => exact ih i

private theorem forall₂_set (h : List.Forall₂ R l l') {a : α} {b : β} (hab : R a b) (i : Nat) :
    List.Forall₂ R (l.set i a) (l'.set i b) := by
  induction h generalizing i with
  | nil => exact .nil
  | cons hcd htail ih =>
    cases i with
    | zero => exact .cons hab htail
    | succ i => exact .cons hcd (ih i)

end Forall₂

namespace Likeness

variable (r : Likeness)

/-- Histories with entries alike, one by one, that differ in nothing else. -/
structure Histories (h h' : History) : Prop where
  entries : List.Forall₂ r.Texts h.entries h'.entries
  maxLength_eq : h'.maxLength = h.maxLength
  hasLiveSlot_eq : h'.hasLiveSlot = h.hasLiveSlot

theorem histories_equality (h : History) : equality.Histories h h :=
  ⟨List.forall₂_same.mpr fun _ _ => rfl, rfl, rfl⟩

theorem Histories.eq_of_equality {h h' : History} (hh : equality.Histories h h') : h' = h := by
  obtain ⟨entries, maxLength, hasLiveSlot⟩ := h
  obtain ⟨entries', maxLength', hasLiveSlot'⟩ := h'
  obtain ⟨hentries, hmax, hslot⟩ := hh
  obtain rfl : entries' = entries := List.forall₂_eq_eq_eq ▸ hentries.flip
  obtain rfl : maxLength' = maxLength := hmax
  obtain rfl : hasLiveSlot' = hasLiveSlot := hslot
  rfl

theorem histories_same {A : Alphabet} {h : History} (hspells : ∀ t ∈ h.entries, A.Spells t) :
    (CharLikeness.same A).likeness.Histories h h :=
  ⟨List.forall₂_same.mpr fun t ht => CharLikeness.texts_same_iff.mpr ⟨rfl, hspells t ht⟩,
    rfl, rfl⟩

namespace Histories

variable {r} {h h' : History} (hh : r.Histories h h')

include hh

theorem length_eq : h'.entries.length = h.entries.length := hh.entries.length_eq.symm

theorem beginLiveSlot : r.Histories h.beginLiveSlot h'.beginLiveSlot := by
  have hroom : List.Forall₂ r.Texts h.withRoom h'.withRoom := by
    rw [History.withRoom, History.withRoom, hh.length_eq, hh.maxLength_eq]
    split
    · exact List.forall₂_drop 1 hh.entries
    · exact hh.entries
  rw [History.beginLiveSlot, History.beginLiveSlot, hh.hasLiveSlot_eq]
  split
  · exact hh
  · exact ⟨List.rel_append hroom (.cons r.texts_nil .nil), hh.maxLength_eq, rfl⟩

theorem endLiveSlot : r.Histories h.endLiveSlot h'.endLiveSlot := by
  rw [History.endLiveSlot, History.endLiveSlot, hh.hasLiveSlot_eq]
  split
  · exact ⟨forall₂_dropLast hh.entries, hh.maxLength_eq, rfl⟩
  · exact hh

/-- **Browsing histories that are alike** leads to the same place, and to entries that are alike. -/
theorem browse {t u : Text} (ht : r.Texts t u) (index : Nat) (d : BrowseDirection) :
    r.Histories (h.browse index t d).1 (h'.browse index u d).1 ∧
      (h'.browse index u d).2.1 = (h.browse index t d).2.1 ∧
      Option.Rel r.Texts (h.browse index t d).2.2 (h'.browse index u d).2.2 := by
  have hset (i : Nat) : r.Histories { h with entries := h.entries.set i t }
      { h' with entries := h'.entries.set i u } :=
    ⟨forall₂_set hh.entries ht i, hh.maxLength_eq, hh.hasLiveSlot_eq⟩
  simp only [History.browse, hh.length_eq]
  by_cases hone : h.entries.length ≤ 1
  · rw [if_pos hone, if_pos hone]
    exact ⟨hh, rfl, .none⟩
  · rw [if_neg hone, if_neg hone]
    cases d with
    | older =>
      dsimp only
      split
      · exact ⟨hset _, rfl, .none⟩
      · exact ⟨hset _, rfl, rel_getElem?_of_forall₂ (hset _).entries _⟩
    | newer =>
      cases index with
      | zero => exact ⟨hset _, rfl, .none⟩
      | succ index =>
        dsimp only
        split
        · exact ⟨hset _, rfl, .none⟩
        · exact ⟨hset _, rfl, rel_getElem?_of_forall₂ (hset _).entries _⟩

end Histories

end Likeness

end Typeline
