import Typeline.Proofs.History.Slots
import Typeline.Proofs.Session.Calls

/-!
# The slots that a session edits

A session edits one slot of the history at a time. A key that browses first writes the line that is
shown into the slot and then goes to the next one, of which the text becomes the line, cut to the
capacity. So while the edit goes on, browsing to a slot finds the text that was shown when the slot
was left, or the entry as it is stored, and slots that are not left keep their texts.

What has been written is remembered by `Session.lastShown`: the text that was shown when a call of
some kind was made last. Calls that leave a slot are one kind, and calls that write to a place of
the list of entries are another. At the place of a slot that is not the one being edited, both make
the same call the last one.

## Main definitions

* `Session.lastShown` : the text that was shown at the last call of some kind.
* `Session.Leaves`, `Session.Overwrites` : leaving a slot and writing to a place.
* `Session.Opened` : the line fits, and the slot that is edited exists.

## Main results

* `Session.getElem?_driven` : the entries after any calls.
* `Session.edits_slots` : what browsing finds.
-/

namespace Typeline

namespace Session

/-- A call leaves a slot. -/
def Leaves (index : Nat) (s : Session) (c : SessionCall) : Prop :=
  s.historyIndex = index ∧ (s.called c).historyIndex ≠ index

instance (index : Nat) (s : Session) (c : SessionCall) : Decidable (s.Leaves index c) :=
  inferInstanceAs (Decidable (_ ∧ _))

/-- A call browses from the slot at a place and writes the line to it. A slot that is the only one
is not written to. -/
def Overwrites (place : Nat) (s : Session) (c : SessionCall) : Prop :=
  (s.direction? c).isSome = true ∧ 1 < s.editor.history.length ∧
    s.editor.history.place s.historyIndex = place

instance (place : Nat) (s : Session) (c : SessionCall) : Decidable (s.Overwrites place c) :=
  inferInstanceAs (Decidable (_ ∧ _ ∧ _))

section LastShown

variable (s : Session) (calls : Nat → SessionCall) (P : Session → SessionCall → Prop)
  [∀ s c, Decidable (P s c)]

/-- The text that was shown when, of the first calls, one of some kind was made last. -/
def lastShown : Nat → Option Text
  | 0 => none
  | n + 1 =>
    if P (s.driven calls n) (calls n) then some (s.driven calls n).shownLine.text
    else lastShown n

variable {s calls P}

theorem lastShown_succ_of_neg {n : Nat} (h : ¬P (s.driven calls n) (calls n)) :
    s.lastShown calls P (n + 1) = s.lastShown calls P n :=
  if_neg h

theorem lastShown_succ_of_pos {n : Nat} (h : P (s.driven calls n) (calls n)) :
    s.lastShown calls P (n + 1) = some (s.driven calls n).shownLine.text :=
  if_pos h

/-- Nothing is remembered before a call of the kind. -/
theorem lastShown_eq_none_iff {n : Nat} :
    s.lastShown calls P n = none ↔ ∀ m < n, ¬P (s.driven calls m) (calls m) := by
  induction n with
  | zero => exact ⟨fun _ m hm => absurd hm (Nat.not_lt_zero m), fun _ => rfl⟩
  | succ n ih =>
    by_cases h : P (s.driven calls n) (calls n)
    · rw [lastShown_succ_of_pos h]
      exact ⟨fun hnone => absurd hnone (by simp),
        fun hall => absurd h (hall n (Nat.lt_succ_self n))⟩
    · rw [lastShown_succ_of_neg h, ih]
      refine ⟨fun hall m hm => ?_, fun hall m hm => hall m (Nat.lt_succ_of_lt hm)⟩
      rcases Nat.lt_or_eq_of_le (Nat.le_of_lt_succ hm) with hlt | rfl
      · exact hall m hlt
      · exact h

/-- What is remembered was shown at a call of the kind. -/
theorem exists_of_lastShown {n : Nat} {t : Text} (h : s.lastShown calls P n = some t) :
    ∃ m < n, P (s.driven calls m) (calls m) ∧ (s.driven calls m).shownLine.text = t := by
  induction n with
  | zero => exact absurd h (by simp [lastShown])
  | succ n ih =>
    by_cases hn : P (s.driven calls n) (calls n)
    · rw [lastShown_succ_of_pos hn] at h
      exact ⟨n, Nat.lt_succ_self n, hn, Option.some.inj h⟩
    · rw [lastShown_succ_of_neg hn] at h
      obtain ⟨m, hm, hshown⟩ := ih h
      exact ⟨m, Nat.lt_succ_of_lt hm, hshown⟩

/-- A call of the kind is remembered until the next one. -/
theorem lastShown_of_last {m n : Nat} (hm : m < n) (h : P (s.driven calls m) (calls m))
    (hlast : ∀ k, m < k → k < n → ¬P (s.driven calls k) (calls k)) :
    s.lastShown calls P n = some (s.driven calls m).shownLine.text := by
  induction n with
  | zero => exact absurd hm (Nat.not_lt_zero m)
  | succ n ih =>
    rcases Nat.lt_or_eq_of_le (Nat.le_of_lt_succ hm) with hlt | rfl
    · rw [lastShown_succ_of_neg (hlast n hlt (Nat.lt_succ_self n))]
      exact ih hlt fun k hk hkn => hlast k hk (Nat.lt_succ_of_lt hkn)
    · exact lastShown_succ_of_pos h

end LastShown

/-! ### One call and the entries -/

variable {s : Session} {calls : Nat → SessionCall} {n : Nat}

theorem not_overwrites_of_direction? {c : SessionCall} (h : s.direction? c = none) (place : Nat) :
    ¬s.Overwrites place c := by
  rintro ⟨hsome, -⟩
  rw [h] at hsome
  exact absurd hsome (by simp)

/-- A call leaves the number of entries as it is, or it closes the live slot. -/
theorem length_called (s : Session) (c : SessionCall) :
    (s.called c).editor.history.length = s.editor.history.length ∨
      (s.called c).editor.history = s.editor.history.endLiveSlot ∧ s.Ends c := by
  cases h : s.direction? c with
  | none => exact (history_called h).imp_left (congrArg History.length)
  | some d =>
    rw [history_called_of_direction? h]
    exact Or.inl (History.browse_keeps _ _ d).1

/-- A call writes the line that is shown to a place, or it leaves the entry there alone. -/
theorem getElem?_called (s : Session) (c : SessionCall) {p : Nat}
    (hp : p < (s.called c).editor.history.length) :
    p < s.editor.history.length ∧ (s.called c).editor.history.entries[p]? =
      if s.Overwrites p c then some s.shownLine.text else s.editor.history.entries[p]? := by
  cases h : s.direction? c with
  | none =>
    rw [if_neg (not_overwrites_of_direction? h p)]
    rcases history_called h with hhistory | ⟨hhistory, -⟩
    · rw [hhistory] at hp ⊢
      exact ⟨hp, rfl⟩
    · rw [hhistory] at hp ⊢
      exact History.getElem?_endLiveSlot hp
  | some d =>
    rw [history_called_of_direction? h] at hp ⊢
    have hlength : p < s.editor.history.length := by
      rwa [← (History.browse_keeps s.historyIndex s.shownLine.text d).1]
    refine ⟨hlength, (History.getElem?_browse _ _ d hlength).trans ?_⟩
    simp only [Overwrites, h, Option.isSome_some, true_and]

/-- **The entries after any calls.** Each is the text that was shown when it was last written, or
it is as it was. -/
theorem getElem?_driven {p : Nat} (hp : p < (s.driven calls n).editor.history.length) :
    p < s.editor.history.length ∧ (s.driven calls n).editor.history.entries[p]? =
      (s.lastShown calls (Overwrites p) n).or s.editor.history.entries[p]? := by
  induction n with
  | zero => exact ⟨hp, rfl⟩
  | succ n ih =>
    obtain ⟨hbefore, hentry⟩ := getElem?_called (s.driven calls n) (calls n) hp
    obtain ⟨hfirst, hentries⟩ := ih hbefore
    refine ⟨hfirst, ?_⟩
    rw [driven, hentry]
    by_cases h : (s.driven calls n).Overwrites p (calls n)
    · rw [if_pos h, lastShown_succ_of_pos h]
      rfl
    · rw [if_neg h, lastShown_succ_of_neg h, hentries]

/-! ### A session whose slot exists -/

/-- The line of a session fits into its capacity, and the slot that is edited exists. -/
structure Opened (s : Session) : Prop where
  fits : s.line.Fits
  index_lt : s.historyIndex < s.editor.history.length

/-- So it is at the start of a session on a terminal. -/
theorem opened_of_start {editor : Editor} {mode : RawMode} {input : Input} {output : Output}
    {prompt : Text} (hstart : start editor mode input output prompt = .ok s)
    (hterminal : s.isTerminal = true)
    (hslot : editor.history.hasLiveSlot = true → editor.history.entries ≠ []) : s.Opened := by
  obtain rfl := start_eq_of_isTerminal hstart hterminal
  exact ⟨Line.fits_empty _, History.length_beginLiveSlot_pos hslot⟩

theorem capacity_start {editor : Editor} {mode : RawMode} {input : Input} {output : Output}
    {prompt : Text} (hstart : start editor mode input output prompt = .ok s) :
    s.line.capacity = editor.config.capacity := by
  rcases start_eq_ok hstart with rfl | rfl <;> rfl

theorem Opened.fits_shownLine (h : s.Opened) : s.shownLine.Fits := by
  obtain ⟨ops, hline⟩ := s.exists_edited_shownLine
  rw [hline]
  exact Line.fits_edited h.fits ops

private theorem not_ends_of_direction? {c : SessionCall} {d : BrowseDirection}
    (h : s.direction? c = some d) : ¬s.Ends c :=
  (called_of_direction? h).1

theorem length_called_of_not_ends {c : SessionCall} (hend : ¬s.Ends c) :
    (s.called c).editor.history.length = s.editor.history.length :=
  (s.length_called c).resolve_right fun h => hend h.2

/-- Where there is no next slot, browsing stays and leaves the line as it is shown. -/
theorem Opened.stays (h : s.Opened) {c : SessionCall} {d : BrowseDirection}
    (hd : s.direction? c = some d)
    (hnext : d.next? s.editor.history.length s.historyIndex = none) :
    (s.called c).historyIndex = s.historyIndex ∧ (s.called c).line = s.shownLine := by
  obtain ⟨-, hview, hline, -⟩ := called_of_direction? hd
  have hbrowse := History.browse_of_lt h.index_lt s.shownLine.text d
  rw [hnext] at hbrowse
  rw [hbrowse] at hview hline
  exact ⟨congrArg HistoryView.index hview, hline⟩

/-- Where there is a next slot, browsing goes there, and the line becomes the text in it. -/
theorem Opened.arrives (h : s.Opened) {c : SessionCall} {d : BrowseDirection} {i : Nat}
    (hd : s.direction? c = some d)
    (hnext : d.next? s.editor.history.length s.historyIndex = some i) :
    (s.called c).historyIndex = i ∧
      ∃ t, s.editor.history.slot? i = some t ∧ (s.called c).line = s.shownLine.setText t := by
  obtain ⟨-, hview, hline, -⟩ := called_of_direction? hd
  have hbrowse := History.browse_of_lt h.index_lt s.shownLine.text d
  obtain ⟨t, ht⟩ := History.exists_slot? (BrowseDirection.next?_eq_some hnext h.index_lt).1
  rw [hnext] at hbrowse
  rw [hbrowse] at hview hline
  simp only [ht] at hline
  exact ⟨congrArg HistoryView.index hview, t, ht, hline⟩

theorem historyIndex_of_direction?_eq_none {c : SessionCall} (hd : s.direction? c = none) :
    (s.called c).historyIndex = s.historyIndex := by
  rcases historyView_called hd with hview | ⟨hview, -⟩
  · exact congrArg HistoryView.index hview
  · exact congrArg HistoryView.index hview

/-- A call that does not end the edit leads from a slot to a slot. -/
theorem Opened.called (h : s.Opened) {c : SessionCall} (hend : ¬s.Ends c) :
    (s.called c).Opened where
  fits := by
    obtain ⟨ops, hline⟩ := s.exists_edited_called c
    rw [hline]
    exact Line.fits_edited h.fits ops
  index_lt := by
    rw [length_called_of_not_ends hend]
    cases hd : s.direction? c with
    | none =>
      rw [historyIndex_of_direction?_eq_none hd]
      exact h.index_lt
    | some d =>
      cases hnext : d.next? s.editor.history.length s.historyIndex with
      | none =>
        rw [(h.stays hd hnext).1]
        exact h.index_lt
      | some i =>
        rw [(h.arrives hd hnext).1]
        exact (BrowseDirection.next?_eq_some hnext h.index_lt).1

theorem Opened.driven (h : s.Opened) (hmore : s.Ongoing calls n) : (s.driven calls n).Opened := by
  induction n with
  | zero => exact h
  | succ n ih => exact (ih (hmore.mono (Nat.le_succ n))).called (hmore n (Nat.lt_succ_self n))

theorem length_driven (hmore : s.Ongoing calls n) :
    (s.driven calls n).editor.history.length = s.editor.history.length := by
  induction n with
  | zero => rfl
  | succ n ih =>
    exact (length_called_of_not_ends (hmore n (Nat.lt_succ_self n))).trans
      (ih (hmore.mono (Nat.le_succ n)))

/-- Slots stay in their places. -/
theorem place_driven (hmore : s.Ongoing calls n) (i : Nat) :
    (s.driven calls n).editor.history.place i = s.editor.history.place i := by
  rw [History.place, History.place, length_driven hmore]

private theorem exists_edited_driven (s : Session) (calls : Nat → SessionCall) (n : Nat) :
    ∃ ops, (s.driven calls n).line = s.line.edited ops := by
  induction n with
  | zero => exact ⟨[], rfl⟩
  | succ n ih =>
    obtain ⟨ops, hline⟩ := ih
    obtain ⟨ops', hcalled⟩ := (s.driven calls n).exists_edited_called (calls n)
    exact ⟨ops ++ ops', by rw [Line.edited_append, ← hline]; exact hcalled⟩

/-- The capacity of the line stays what it is. -/
theorem capacity_shownLine_driven (s : Session) (calls : Nat → SessionCall) (n : Nat) :
    (s.driven calls n).shownLine.capacity = s.line.capacity := by
  obtain ⟨ops, hline⟩ := s.exists_edited_driven calls n
  obtain ⟨ops', hshown⟩ := (s.driven calls n).exists_edited_shownLine
  rw [hshown, Line.capacity_edited, hline, Line.capacity_edited]

/-! ### Slots and places -/

/-- A call leaves a slot only by browsing to another one, and then writes to its place. -/
theorem Opened.overwrites_of_leaves (h : s.Opened) {c : SessionCall} {i : Nat}
    (hleaves : s.Leaves i c) : s.Overwrites (s.editor.history.place i) c := by
  obtain ⟨rfl, hmoved⟩ := hleaves
  cases hd : s.direction? c with
  | none => exact absurd (historyIndex_of_direction?_eq_none hd) hmoved
  | some d =>
    refine ⟨by rw [hd]; rfl, ?_, rfl⟩
    cases hnext : d.next? s.editor.history.length s.historyIndex with
    | none => exact absurd (h.stays hd hnext).1 hmoved
    | some i =>
      have hi := BrowseDirection.next?_eq_some hnext h.index_lt
      have hindex := h.index_lt
      omega

/-- A call writes to no place but that of the slot that is edited. -/
theorem Opened.not_overwrites (h : s.Opened) (c : SessionCall) {i : Nat}
    (hi : i < s.editor.history.length) (hne : i ≠ s.historyIndex) :
    ¬s.Overwrites (s.editor.history.place i) c :=
  fun hwrites => hne ((History.place_eq_iff h.index_lt hi).mp hwrites.2.2).symm

/-- At the place of a slot that is not being edited, the last text written is the one that was shown
when the slot was left. -/
theorem Opened.lastShown_leaves (h : s.Opened) (hmore : s.Ongoing calls n) {i : Nat}
    (hi : i < s.editor.history.length) (hne : i ≠ (s.driven calls n).historyIndex) :
    s.lastShown calls (Leaves i) n =
      s.lastShown calls (Overwrites (s.editor.history.place i)) n := by
  induction n with
  | zero => rfl
  | succ n ih =>
    have hbefore := hmore.mono (Nat.le_succ n)
    have hopened := h.driven hbefore
    have hlength := length_driven hbefore
    by_cases hindex : (s.driven calls n).historyIndex = i
    · have hleaves : (s.driven calls n).Leaves i (calls n) := ⟨hindex, fun hsame => hne hsame.symm⟩
      have hwrites := hopened.overwrites_of_leaves hleaves
      rw [place_driven hbefore] at hwrites
      rw [lastShown_succ_of_pos hleaves, lastShown_succ_of_pos hwrites]
    · have hkept := hopened.not_overwrites (calls n) (by rwa [hlength]) (Ne.symm hindex)
      rw [place_driven hbefore] at hkept
      rw [lastShown_succ_of_neg fun hleaves => hindex hleaves.1, lastShown_succ_of_neg hkept]
      exact ih hbefore (Ne.symm hindex)

/-- The text in a slot that is not being edited is the one that was shown when the slot was left,
or the entry as it was stored. -/
theorem Opened.slot?_driven (h : s.Opened) (hmore : s.Ongoing calls n) {i : Nat}
    (hi : i < s.editor.history.length) (hne : i ≠ (s.driven calls n).historyIndex) :
    (s.driven calls n).editor.history.slot? i =
      (s.lastShown calls (Leaves i) n).or (s.editor.history.slot? i) := by
  have hlength := length_driven hmore
  have hi' : i < (s.driven calls n).editor.history.length := by rwa [hlength]
  rw [History.slot?_eq_getElem?_place hi', History.slot?_eq_getElem?_place hi, place_driven hmore,
    h.lastShown_leaves hmore hi hne]
  refine (getElem?_driven ?_).2
  rw [← place_driven hmore]
  exact History.place_lt hi'

/-- **What browsing finds.** The line becomes the text that was shown when the slot was left, or the
entry that is stored there, cut to the capacity. -/
theorem Opened.arrives_driven (h : s.Opened) (hmore : s.Ongoing calls n) {c : SessionCall}
    {d : BrowseDirection} {i : Nat} (hd : (s.driven calls n).direction? c = some d)
    (hnext : d.next? (s.driven calls n).editor.history.length (s.driven calls n).historyIndex =
      some i) :
    ((s.driven calls n).called c).historyIndex = i ∧ ((s.driven calls n).called c).line.after = [] ∧
      ∃ stored, s.editor.history.slot? i = some stored ∧
        ((s.driven calls n).called c).line.text =
          (s.lastShown calls (Leaves i) n).getD (Line.cut s.line.capacity stored) := by
  have hopened := h.driven hmore
  obtain ⟨hi, hne⟩ := BrowseDirection.next?_eq_some hnext hopened.index_lt
  obtain ⟨hindex, t, ht, hline⟩ := hopened.arrives hd hnext
  rw [length_driven hmore] at hi
  obtain ⟨stored, hstored⟩ := History.exists_slot? hi
  refine ⟨hindex, by rw [hline]; rfl, stored, hstored, ?_⟩
  rw [h.slot?_driven hmore hi hne, hstored] at ht
  rw [hline, Line.text_setText, capacity_shownLine_driven]
  cases hlast : s.lastShown calls (Leaves i) n with
  | none =>
    rw [hlast] at ht
    rw [← Option.some.inj ht]
    rfl
  | some shown =>
    rw [hlast] at ht
    obtain rfl := Option.some.inj ht
    obtain ⟨m, hm, -, rfl⟩ := exists_of_lastShown hlast
    have hfits := (h.driven (hmore.mono (Nat.le_of_lt hm))).fits_shownLine.cut_text
    rwa [capacity_shownLine_driven] at hfits

/-- Slots that are not left keep their texts. -/
theorem Opened.slot?_driven_of_not_leaves (h : s.Opened) (hmore : s.Ongoing calls n) {m : Nat}
    (hm : m ≤ n) {i : Nat} (hne : i ≠ (s.driven calls n).historyIndex)
    (hkept : ∀ k, m ≤ k → k < n → ¬(s.driven calls k).Leaves i (calls k)) :
    (s.driven calls n).editor.history.slot? i = (s.driven calls m).editor.history.slot? i := by
  induction hm with
  | refl => rfl
  | @step n hm ih =>
    have hbefore := hmore.mono (Nat.le_succ n)
    have hstays := hkept n hm (Nat.lt_succ_self n)
    have hother : i ≠ (s.driven calls n).historyIndex :=
      fun hsame => hstays ⟨hsame.symm, fun hback => hne hback.symm⟩
    rw [← ih hbefore hother fun k hk hkn => hkept k hk (Nat.lt_succ_of_lt hkn)]
    by_cases hi : i < s.editor.history.length
    · rw [h.slot?_driven hmore hi hne, h.slot?_driven hbefore hi hother,
        lastShown_succ_of_neg hstays]
    · rw [History.slot?_eq_none, History.slot?_eq_none]
      · rwa [length_driven hbefore]
      · rwa [length_driven hmore]

/-! ### There and back -/

theorem Ongoing.succ (hmore : s.Ongoing calls n) {d : BrowseDirection}
    (hd : (s.driven calls n).direction? (calls n) = some d) : s.Ongoing calls (n + 1) := by
  intro m hm
  rcases Nat.lt_or_eq_of_le (Nat.le_of_lt_succ hm) with hlt | rfl
  · exact hmore m hlt
  · exact not_ends_of_direction? hd

/-- Keys that go to older slots lead as far away as there are keys. -/
theorem Opened.climbs (h : s.Opened) (hmore : s.Ongoing calls n)
    (hlive : (s.driven calls n).historyIndex = 0) {k : Nat} (hk : k < s.editor.history.length)
    (hup : ∀ j < k, (s.driven calls (n + j)).direction? (calls (n + j)) = some .older) :
    s.Ongoing calls (n + k) ∧ (s.driven calls (n + k)).historyIndex = k := by
  induction k with
  | zero => exact ⟨hmore, hlive⟩
  | succ k ih =>
    obtain ⟨hongoing, hindex⟩ := ih (Nat.lt_of_succ_lt hk) fun j hj => hup j (Nat.lt_succ_of_lt hj)
    have hd := hup k (Nat.lt_succ_self k)
    have hnext : BrowseDirection.older.next? (s.driven calls (n + k)).editor.history.length
        (s.driven calls (n + k)).historyIndex = some (k + 1) := by
      rw [length_driven hongoing, hindex]
      exact if_pos hk
    exact ⟨hongoing.succ hd, ((h.driven hongoing).arrives hd hnext).1⟩

/-- Keys that go to newer slots lead back by as many. -/
theorem Opened.descends (h : s.Opened) (hmore : s.Ongoing calls n) {k : Nat}
    (hindex : (s.driven calls n).historyIndex = k) {j : Nat} (hj : j ≤ k)
    (hdown : ∀ j' < j, (s.driven calls (n + j')).direction? (calls (n + j')) = some .newer) :
    s.Ongoing calls (n + j) ∧ (s.driven calls (n + j)).historyIndex = k - j := by
  induction j with
  | zero => exact ⟨hmore, hindex⟩
  | succ j ih =>
    obtain ⟨hongoing, hthere⟩ := ih (Nat.le_of_succ_le hj) fun j' hj' =>
      hdown j' (Nat.lt_succ_of_lt hj')
    have hd := hdown j (Nat.lt_succ_self j)
    have hnext : BrowseDirection.newer.next? (s.driven calls (n + j)).editor.history.length
        (s.driven calls (n + j)).historyIndex = some (k - (j + 1)) := by
      rw [hthere]
      exact if_neg (by omega)
    exact ⟨hongoing.succ hd, ((h.driven hongoing).arrives hd hnext).1⟩

/-- **There and back.** Going to older slots and back by as many gives back the line. -/
theorem Opened.text_thereAndBack (h : s.Opened) (hmore : s.Ongoing calls n)
    (hlive : (s.driven calls n).historyIndex = 0) {k : Nat} (hk : k < s.editor.history.length)
    (hup : ∀ j < k, (s.driven calls (n + j)).direction? (calls (n + j)) = some .older)
    (hdown : ∀ j < k, (s.driven calls (n + k + j)).direction? (calls (n + k + j)) =
      some .newer) :
    (s.driven calls (n + k + k)).shownLine.text = (s.driven calls n).shownLine.text := by
  have hclimbs (j : Nat) (hj : j ≤ k) :=
    h.climbs hmore hlive (Nat.lt_of_le_of_lt hj hk) fun j' hj' =>
      hup j' (Nat.lt_of_lt_of_le hj' hj)
  obtain ⟨htop, hindex⟩ := hclimbs k (Nat.le_refl k)
  have hdescends (j : Nat) (hj : j ≤ k) :=
    h.descends htop hindex hj fun j' hj' => hdown j' (Nat.lt_of_lt_of_le hj' hj)
  cases k with
  | zero => rfl
  | succ k =>
    -- The live slot is left by the first key and reached again by the last one.
    have hleft : (s.driven calls n).Leaves 0 (calls n) := by
      refine ⟨hlive, ?_⟩
      rw [show (s.driven calls n).called (calls n) = s.driven calls (n + 1) from rfl,
        (hclimbs 1 (Nat.succ_pos k)).2]
      exact Nat.one_ne_zero
    have haway (m : Nat) (hm : n < m) (hmn : m < n + (k + 1) + k) :
        ¬(s.driven calls m).Leaves 0 (calls m) := by
      rintro ⟨hzero, -⟩
      by_cases hside : m ≤ n + (k + 1)
      · have hthere := (hclimbs (m - n) (by omega)).2
        rw [show n + (m - n) = m by omega] at hthere
        omega
      · have hthere := (hdescends (m - (n + (k + 1))) (by omega)).2
        rw [show n + (k + 1) + (m - (n + (k + 1))) = m by omega] at hthere
        omega
    obtain ⟨hongoing, hone⟩ := hdescends k (Nat.le_succ k)
    have hd := hdown k (Nat.lt_succ_self k)
    have hnext : BrowseDirection.newer.next?
        (s.driven calls (n + (k + 1) + k)).editor.history.length
        (s.driven calls (n + (k + 1) + k)).historyIndex = some 0 := by
      rw [hone, show k + 1 - k = 1 by omega]
      rfl
    obtain ⟨-, -, stored, -, htext⟩ := h.arrives_driven hongoing hd hnext
    rw [lastShown_of_last (by omega) hleft haway] at htext
    have hidle := (called_of_direction? hd).2.2.2
    rw [← shownLine_of_idle hidle] at htext
    exact htext

/-- **A session edits slots.** As long as the edit goes on, the slot that is edited exists. A key
that browses stays where there is no slot to go to, with the line as it is shown; otherwise the line
becomes the text that was shown when the next slot was left, or the entry stored there, cut to the
capacity, if it was never left. The slots that are neither left nor edited keep their texts. From
the live slot, keys to older slots and as many back give back the line. -/
theorem edits_slots {editor : Editor} {mode : RawMode} {input : Input} {output : Output}
    {prompt : Text} (hstart : start editor mode input output prompt = .ok s)
    (hterminal : s.isTerminal = true)
    (hslot : editor.history.hasLiveSlot = true → editor.history.entries ≠ [])
    (hmore : s.Ongoing calls n) :
    (s.driven calls n).historyIndex < (s.driven calls n).editor.history.length ∧
    (∀ d, (s.driven calls n).direction? .feed = some d →
      match d.next? (s.driven calls n).editor.history.length (s.driven calls n).historyIndex with
      | none =>
        (s.driven calls n).feed.2.historyIndex = (s.driven calls n).historyIndex ∧
          (s.driven calls n).feed.2.line = (s.driven calls n).shownLine
      | some i =>
        (s.driven calls n).feed.2.historyIndex = i ∧ (s.driven calls n).feed.2.line.after = [] ∧
          ∃ stored, s.editor.history.slot? i = some stored ∧
            (s.driven calls n).feed.2.line.text =
              (s.lastShown calls (Leaves i) n).getD (Line.cut editor.config.capacity stored)) ∧
    (∀ m ≤ n, ∀ i ≠ (s.driven calls n).historyIndex,
      (∀ k, m ≤ k → k < n → ¬(s.driven calls k).Leaves i (calls k)) →
        (s.driven calls n).editor.history.slot? i = (s.driven calls m).editor.history.slot? i) ∧
    (∀ k < s.editor.history.length, (s.driven calls n).historyIndex = 0 →
      (∀ j < k, (s.driven calls (n + j)).direction? (calls (n + j)) = some .older) →
      (∀ j < k, (s.driven calls (n + k + j)).direction? (calls (n + k + j)) = some .newer) →
        (s.driven calls (n + k + k)).shownLine.text = (s.driven calls n).shownLine.text) := by
  have hopened := opened_of_start hstart hterminal hslot
  refine ⟨(hopened.driven hmore).index_lt, fun d hd => ?_, fun m hm i hne hkept => ?_,
    fun k hk hlive hup hdown => hopened.text_thereAndBack hmore hlive hk hup hdown⟩
  · split
    · next hnext => exact (hopened.driven hmore).stays hd hnext
    · next i hnext =>
      rw [← capacity_start hstart]
      exact hopened.arrives_driven hmore hd hnext
  · exact hopened.slot?_driven_of_not_leaves hmore hm hne hkept

/-- A character, two keys up and two down. -/
def climbingKeys : List UInt8 := Utf8.encode ['x'] ++ [0x10, 0x10, 0x0E, 0x0E]

/-- An editor for lines of two bytes, with two entries of which the older one is too long. -/
def climbingEditor : Editor :=
  { Editor.ofConfig ⟨false, false, 2⟩ (.ofColumns 80) with
    history := ⟨[['o', 'l', 'd'], ['n']], 100, false⟩ }

/-- The second key up finds the older entry cut, and the keys down lead back to the character. -/
theorem edits_slots_climbingKeys : ∃ s,
    start climbingEditor .ofPipe (.ofBytes climbingKeys true false none) (.fresh none)
      ['>', ' '] = .ok s ∧
    (s.driven (fun _ => .feed) 2).feed.2.historyIndex = 2 ∧
    (s.driven (fun _ => .feed) 2).feed.2.line.text = ['o', 'l'] ∧
    (s.driven (fun _ => .feed) 5).shownLine.text =
      (s.driven (fun _ => .feed) 1).shownLine.text := by
  obtain ⟨s, hstart, hterminal, hmore, hlive, hlength, hup, hdown, hnext, hslot, hleft⟩ : ∃ s,
      start climbingEditor .ofPipe (.ofBytes climbingKeys true false none) (.fresh none)
        ['>', ' '] = .ok s ∧ s.isTerminal = true ∧
      s.Ongoing (fun _ => .feed) 2 ∧
      (s.driven (fun _ => .feed) 1).historyIndex = 0 ∧ 2 < s.editor.history.length ∧
      (∀ j < 2, (s.driven (fun _ => .feed) (1 + j)).direction? .feed = some .older) ∧
      (∀ j < 2, (s.driven (fun _ => .feed) (1 + 2 + j)).direction? .feed = some .newer) ∧
      BrowseDirection.older.next? (s.driven (fun _ => .feed) 2).editor.history.length
        (s.driven (fun _ => .feed) 2).historyIndex = some 2 ∧
      s.editor.history.slot? 2 = some ['o', 'l', 'd'] ∧
      s.lastShown (fun _ => .feed) (Leaves 2) 2 = none :=
    ⟨_, rfl, rfl, by decide +kernel, by decide +kernel, by decide, by decide +kernel,
      by decide +kernel, by decide +kernel, by decide, by decide +kernel⟩
  have harrives := (edits_slots hstart hterminal (by decide) hmore).2.1 .older (hup 1 (by decide))
  rw [hnext] at harrives
  obtain ⟨hindex, -, stored, hstored, htext⟩ := harrives
  obtain rfl := Option.some.inj (hslot.symm.trans hstored)
  rw [hleft] at htext
  exact ⟨s, hstart, hindex, htext.trans (by decide),
    (edits_slots hstart hterminal (by decide) (hmore.mono (Nat.le_succ 1))).2.2.2 2 hlength
      hlive hup hdown⟩

end Session

end Typeline
