import Mathlib.Data.List.Chain
import Typeline.History.Basic

/-!
# Histories within their limits

Adding lines and choosing another limit keep a history within its limit, and bring no two equal
entries together: a line that is added is compared with the newest entry, and dropping the oldest
entries makes no others neighbours.

## Main definitions

* `History.Bounded`, `History.NoRepeats` : what may be expected of a history outside of sessions.

## Main results

* `History.bounded_addAll`, `History.noRepeats_addAll` : adding any number of lines.
* `History.bounded_setMaxLength`, `History.noRepeats_setMaxLength` : choosing another limit.
-/

namespace Typeline

namespace History

variable {h : History}

/-- A history within its limit, outside of sessions. -/
structure Bounded (h : History) : Prop where
  maxLength_pos : 1 ≤ h.maxLength
  length_le : h.length ≤ h.maxLength
  hasLiveSlot_eq : h.hasLiveSlot = false

/-- No two entries in a row are equal. -/
def NoRepeats (h : History) : Prop := h.entries.IsChain (· ≠ ·)

instance (h : History) : Decidable h.NoRepeats := inferInstanceAs (Decidable (List.IsChain _ _))

theorem noRepeats_empty : empty.NoRepeats := .nil

theorem noRepeats_iff_getElem? :
    h.NoRepeats ↔ ∀ p t, h.entries[p]? = some t → h.entries[p + 1]? ≠ some t := by
  rw [NoRepeats, List.isChain_iff_getElem]
  constructor
  · intro hchain p t hp hnext
    obtain ⟨hlt, hnext⟩ := List.getElem?_eq_some_iff.mp hnext
    obtain ⟨_, hp⟩ := List.getElem?_eq_some_iff.mp hp
    exact hchain p hlt (hp.trans hnext.symm)
  · intro hall p hlt heq
    refine hall p h.entries[p] (List.getElem?_eq_getElem _) ?_
    rw [List.getElem?_eq_getElem hlt, ← heq]

/-! ### Adding lines -/

private theorem length_withRoom_lt (hb : h.Bounded) : h.withRoom.length < h.maxLength := by
  have hpos := hb.maxLength_pos
  have hle : h.entries.length ≤ h.maxLength := hb.length_le
  rw [withRoom]
  split
  · rw [List.length_drop]
    omega
  · omega

theorem NoRepeats.withRoom (hn : h.NoRepeats) : h.withRoom.IsChain (· ≠ ·) := by
  rw [History.withRoom]
  split
  · exact hn.drop 1
  · exact hn

/-- The newest entry does not make room. -/
theorem getLast?_withRoom {t : Text} (ht : h.withRoom.getLast? = some t) :
    h.entries.getLast? = some t := by
  rw [withRoom] at ht
  split at ht
  · rw [List.getLast?_drop] at ht
    exact (Option.ite_none_left_eq_some.mp ht).2
  · exact ht

theorem add_eq_some {line : Text} {h' : History} (hadd : h.add line = some h') :
    h.entries.getLast? ≠ some line ∧ h' = { h with entries := h.withRoom ++ [line] } := by
  obtain ⟨hnew, hsome⟩ := Option.ite_none_left_eq_some.mp hadd
  exact ⟨fun hlast => hnew (Or.inr hlast), (Option.some.inj hsome).symm⟩

theorem bounded_add (hb : h.Bounded) (line : Text) : ((h.add line).getD h).Bounded := by
  cases hadd : h.add line with
  | none => exact hb
  | some h' =>
    obtain ⟨-, rfl⟩ := add_eq_some hadd
    refine ⟨hb.maxLength_pos, ?_, hb.hasLiveSlot_eq⟩
    rw [Option.getD_some, length, List.length_append]
    exact length_withRoom_lt hb

theorem noRepeats_add (hn : h.NoRepeats) (line : Text) : ((h.add line).getD h).NoRepeats := by
  cases hadd : h.add line with
  | none => exact hn
  | some h' =>
    obtain ⟨hnew, rfl⟩ := add_eq_some hadd
    refine hn.withRoom.append (.singleton line) fun t ht line' hline => ?_
    obtain rfl := Option.some.inj hline
    rintro rfl
    exact hnew (getLast?_withRoom ht)

theorem bounded_addAll (hb : h.Bounded) (lines : List Text) : (h.addAll lines).Bounded := by
  induction lines generalizing h with
  | nil => exact hb
  | cons line lines ih => exact ih (bounded_add hb line)

theorem noRepeats_addAll (hn : h.NoRepeats) (lines : List Text) : (h.addAll lines).NoRepeats := by
  induction lines generalizing h with
  | nil => exact hn
  | cons line lines ih => exact ih (noRepeats_add hn line)

/-! ### The limit -/

theorem setMaxLength_eq_ok {n : Nat} {h' : History} (hset : h.setMaxLength n = .ok h') :
    1 ≤ n ∧ h' = { h with entries := h.entries.drop (h.entries.length - n), maxLength := n } := by
  rw [setMaxLength] at hset
  split at hset
  · exact absurd hset (by simp)
  · next hpos => exact ⟨Nat.pos_of_ne_zero hpos, (Except.ok.inj hset).symm⟩

theorem bounded_setMaxLength (hslot : h.hasLiveSlot = false) {n : Nat} {h' : History}
    (hset : h.setMaxLength n = .ok h') : h'.Bounded := by
  obtain ⟨hpos, rfl⟩ := setMaxLength_eq_ok hset
  refine ⟨hpos, ?_, hslot⟩
  rw [length, List.length_drop]
  change _ ≤ n
  omega

theorem noRepeats_setMaxLength (hn : h.NoRepeats) {n : Nat} {h' : History}
    (hset : h.setMaxLength n = .ok h') : h'.NoRepeats := by
  obtain ⟨-, rfl⟩ := setMaxLength_eq_ok hset
  exact hn.drop _

end History

end Typeline
