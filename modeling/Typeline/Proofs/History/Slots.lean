import Typeline.History.Basic

/-!
# The slots of a history

Browsing sees a history as a row of slots, the newest first: during an edit the first one is the
live slot, and the others hold the entries. In the list of entries the order is the other way round,
and the place of an entry there stays what it is when the live slot is closed. `History.place`
leads from a slot to its place.

## Main definitions

* `History.slot?` : the text in a slot.
* `History.place` : where a slot stands among the entries.
* `BrowseDirection.next?` : the slot after another one.

## Main results

* `History.browse_of_lt` : where browsing leads.
* `History.getElem?_browse` : what browsing overwrites.
* `History.endLiveSlot_beginLiveSlot` : what is left when a live slot has come and gone.
-/

namespace Typeline

attribute [ext] History

/-- The slot to which browsing leads from another one, if there is one in the direction. -/
def BrowseDirection.next? (slots index : Nat) : BrowseDirection → Option Nat
  | .older => if index + 1 < slots then some (index + 1) else none
  | .newer => if index = 0 then none else some (index - 1)

/-- Browsing leads to another slot. -/
theorem BrowseDirection.next?_eq_some {slots index i : Nat} {d : BrowseDirection}
    (hnext : d.next? slots index = some i) (hindex : index < slots) :
    i < slots ∧ i ≠ index := by
  cases d with
  | older =>
    obtain ⟨hlt, hi⟩ := Option.ite_none_right_eq_some.mp hnext
    have hi := Option.some.inj hi
    omega
  | newer =>
    obtain ⟨hpos, hi⟩ := Option.ite_none_left_eq_some.mp hnext
    have hi := Option.some.inj hi
    omega

namespace History

variable (h : History)

/-- The text in a slot, counted from the newest one. -/
def slot? (index : Nat) : Option Text := h.entries.reverse[index]?

/-- Where a slot stands among the entries, counted from the oldest one. A slot beyond the oldest one
is taken for that. -/
def place (index : Nat) : Nat := h.length - 1 - min index (h.length - 1)

variable {h}

theorem place_of_lt {index : Nat} (hindex : index < h.length) :
    h.place index = h.length - 1 - index := by
  rw [place, Nat.min_eq_left (by omega)]

theorem place_lt {index : Nat} (hindex : index < h.length) : h.place index < h.length := by
  rw [place_of_lt hindex]
  omega

theorem slot?_eq_getElem?_place {index : Nat} (hindex : index < h.length) :
    h.slot? index = h.entries[h.place index]? := by
  rw [slot?, List.getElem?_reverse hindex, place_of_lt hindex]
  rfl

theorem exists_slot? {index : Nat} (hindex : index < h.length) : ∃ t, h.slot? index = some t :=
  ⟨_, List.getElem?_eq_getElem (by rwa [List.length_reverse])⟩

theorem slot?_eq_none {index : Nat} (hindex : ¬index < h.length) : h.slot? index = none :=
  List.getElem?_eq_none (by rw [List.length_reverse]; exact Nat.not_lt.mp hindex)

/-- Different slots have different places. -/
theorem place_eq_iff {index index' : Nat} (hindex : index < h.length)
    (hindex' : index' < h.length) : h.place index = h.place index' ↔ index = index' := by
  rw [place_of_lt hindex, place_of_lt hindex']
  omega

/-! ### Browsing -/

theorem browse_of_length_le_one (hlength : h.length ≤ 1) (index : Nat) (line : Text)
    (d : BrowseDirection) : h.browse index line d = (h, index, none) :=
  if_pos hlength

/-- Browsing overwrites the slot that it starts from. -/
theorem browse_fst (hlength : 1 < h.length) (index : Nat) (line : Text) (d : BrowseDirection) :
    (h.browse index line d).1 = { h with entries := h.entries.set (h.place index) line } := by
  have hmany : ¬h.entries.length ≤ 1 := Nat.not_le.mpr hlength
  rw [browse]
  dsimp only
  rw [if_neg hmany]
  cases d with
  | older =>
    dsimp only
    split <;> rfl
  | newer =>
    cases index with
    | zero => rfl
    | succ index =>
      dsimp only
      split <;> rfl

/-- Browsing changes nothing but the texts of entries. -/
theorem browse_keeps (index : Nat) (line : Text) (d : BrowseDirection) :
    (h.browse index line d).1.length = h.length ∧
      (h.browse index line d).1.maxLength = h.maxLength ∧
      (h.browse index line d).1.hasLiveSlot = h.hasLiveSlot := by
  by_cases hlength : h.length ≤ 1
  · rw [browse_of_length_le_one hlength]
    exact ⟨rfl, rfl, rfl⟩
  · rw [browse_fst (Nat.not_le.mp hlength)]
    exact ⟨List.length_set, rfl, rfl⟩

/-- What browsing overwrites. -/
theorem getElem?_browse (index : Nat) (line : Text) (d : BrowseDirection) {p : Nat}
    (hp : p < h.length) :
    (h.browse index line d).1.entries[p]? =
      if 1 < h.length ∧ h.place index = p then some line else h.entries[p]? := by
  by_cases hlength : 1 < h.length
  · rw [browse_fst hlength]
    by_cases hplace : h.place index = p
    · rw [if_pos ⟨hlength, hplace⟩, hplace]
      exact List.getElem?_set_self hp
    · rw [if_neg fun hboth => hplace hboth.2]
      exact List.getElem?_set_ne hplace
  · rw [browse_of_length_le_one (Nat.not_lt.mp hlength), if_neg fun hboth => hlength hboth.1]

/-- **Where browsing leads.** It goes to the next slot and finds the text there, or it stays. -/
theorem browse_of_lt {index : Nat} (hindex : index < h.length) (line : Text) (d : BrowseDirection) :
    (h.browse index line d).2 =
      match d.next? h.length index with
      | none => (index, none)
      | some i => (i, h.slot? i) := by
  by_cases hlength : 1 < h.length
  · have hmany : ¬h.entries.length ≤ 1 := Nat.not_le.mpr hlength
    have hget {i : Nat} (hi : i < h.length) (hne : i ≠ index) :
        ({ h with entries := h.entries.set (h.place index) line } : History).get?
          (h.entries.length - 1 - i) = h.slot? i := by
      rw [slot?_eq_getElem?_place hi, place_of_lt hi, get?]
      refine List.getElem?_set_ne ?_
      rw [place_of_lt hindex]
      change h.entries.length - 1 - index ≠ h.entries.length - 1 - i
      rw [length] at hi hindex
      omega
    rw [browse]
    dsimp only
    rw [if_neg hmany]
    cases d with
    | older =>
      dsimp only [BrowseDirection.next?]
      by_cases hend : h.length ≤ index + 1
      · rw [if_pos (show h.entries.length ≤ index + 1 from hend), if_neg (Nat.not_lt.mpr hend)]
        exact Prod.ext (show h.length - 1 = index by omega) rfl
      · rw [if_neg (show ¬h.entries.length ≤ index + 1 from hend), if_pos (Nat.not_le.mp hend)]
        exact Prod.ext rfl (hget (Nat.not_le.mp hend) (by omega))
    | newer =>
      cases index with
      | zero => rfl
      | succ index =>
        dsimp only [BrowseDirection.next?]
        rw [if_neg (show ¬h.entries.length ≤ index by rw [length] at hindex; omega),
          if_neg (Nat.succ_ne_zero index)]
        exact Prod.ext rfl (hget (by omega) (by omega))
  · rw [browse_of_length_le_one (Nat.not_lt.mp hlength)]
    have hstay : d.next? h.length index = none := by
      cases d with
      | older => exact if_neg (by omega)
      | newer => exact if_pos (by omega)
    rw [hstay]

/-! ### The live slot -/

theorem endLiveSlot_of_not_hasLiveSlot (hslot : h.hasLiveSlot = false) : h.endLiveSlot = h := by
  rw [endLiveSlot, hslot]
  rfl

theorem hasLiveSlot_endLiveSlot (h : History) : h.endLiveSlot.hasLiveSlot = false := by
  rw [endLiveSlot]
  split
  · rfl
  · next hslot => exact Bool.not_eq_true _ ▸ hslot

/-- A live slot is closed only once. -/
theorem endLiveSlot_endLiveSlot (h : History) : h.endLiveSlot.endLiveSlot = h.endLiveSlot :=
  endLiveSlot_of_not_hasLiveSlot h.hasLiveSlot_endLiveSlot

theorem maxLength_endLiveSlot (h : History) : h.endLiveSlot.maxLength = h.maxLength := by
  rw [endLiveSlot]
  split <;> rfl

theorem entries_endLiveSlot (h : History) :
    h.endLiveSlot.entries = if h.hasLiveSlot then h.entries.dropLast else h.entries := by
  rw [endLiveSlot]
  split <;> rfl

theorem length_endLiveSlot (h : History) :
    h.endLiveSlot.length = if h.hasLiveSlot then h.length - 1 else h.length := by
  rw [length, entries_endLiveSlot]
  split
  · exact List.length_dropLast
  · rfl

/-- Closing the live slot leaves the other entries in their places. -/
theorem getElem?_endLiveSlot {p : Nat} (hp : p < h.endLiveSlot.length) :
    p < h.length ∧ h.endLiveSlot.entries[p]? = h.entries[p]? := by
  rw [length, entries_endLiveSlot] at hp
  rw [entries_endLiveSlot]
  split at hp
  · next hlive =>
    rw [List.length_dropLast] at hp
    rw [if_pos hlive, List.getElem?_dropLast, if_pos hp]
    exact ⟨Nat.lt_of_lt_of_le hp (Nat.sub_le _ _), rfl⟩
  · next hlive =>
    rw [if_neg hlive]
    exact ⟨hp, rfl⟩

/-- What is left when a live slot has come and gone: the entries without the one that had to make
room. -/
theorem endLiveSlot_beginLiveSlot (hslot : h.hasLiveSlot = false) :
    h.beginLiveSlot.endLiveSlot = { h with entries := h.withRoom } := by
  rw [beginLiveSlot, hslot, endLiveSlot]
  simp

/-- A live slot is empty at first. -/
theorem slot?_beginLiveSlot (hslot : h.hasLiveSlot = false) :
    h.beginLiveSlot.slot? 0 = some [] := by
  rw [beginLiveSlot, hslot, slot?]
  simp

/-- During an edit there is a slot. -/
theorem length_beginLiveSlot_pos (hslot : h.hasLiveSlot = true → h.entries ≠ []) :
    0 < h.beginLiveSlot.length := by
  rw [beginLiveSlot]
  split
  · next hlive => exact List.length_pos_iff.mpr (hslot hlive)
  · simp [length]

end History

end Typeline
