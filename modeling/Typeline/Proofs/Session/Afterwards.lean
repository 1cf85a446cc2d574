import Typeline.Proofs.Session.Slots

/-!
# The history after a session

A session on a terminal opens a live slot, and in a full history the oldest entry makes room for it.
When the session is finished, the live slot is closed, and the other entries keep what was written
to them in between. Only keys that browse write to them. So a session without such keys changes
nothing but that the oldest entry may be gone, and a session with no other keys writes back what it
recalled, which is the entry itself, unless that is too long for a line and was cut.

## Main definitions

* `Session.Recalled` : the line is the entry that is edited.

## Main results

* `Session.getElem?_finish_driven` : the entries after a session.
* `Session.history_finish_of_quiet` : a session without browsing.
* `Session.entries_finish_of_browsing` : a session that only browses.
-/

namespace Typeline

namespace Session

variable {s : Session} {calls : Nat → SessionCall} {n : Nat}

/-! ### Finishing a session -/

theorem history_finish (hfinished : s.finished = false) :
    s.finish.editor.history = s.editor.history.endLiveSlot := by
  rw [finish, hfinished]
  dsimp only
  split
  · exact absurd ‹_› Bool.false_ne_true
  · split <;> rfl

theorem finished_driven (s : Session) (calls : Nat → SessionCall) (n : Nat) :
    (s.driven calls n).finished = s.finished := by
  induction n with
  | zero => rfl
  | succ n ih => exact (finished_called _ _).trans ih

/-- A call leaves the number of the entries that a session keeps as it is, and the largest number of
them. -/
theorem endLiveSlot_called (s : Session) (c : SessionCall) :
    (s.called c).editor.history.endLiveSlot.length = s.editor.history.endLiveSlot.length ∧
      (s.called c).editor.history.endLiveSlot.maxLength =
        s.editor.history.endLiveSlot.maxLength := by
  cases h : s.direction? c with
  | none =>
    rcases history_called h with hhistory | ⟨hhistory, -⟩
    · rw [hhistory]
      exact ⟨rfl, rfl⟩
    · rw [hhistory, History.endLiveSlot_endLiveSlot]
      exact ⟨rfl, rfl⟩
  | some d =>
    obtain ⟨hlength, hmax, hslot⟩ :=
      History.browse_keeps (h := s.editor.history) s.historyIndex s.shownLine.text d
    rw [history_called_of_direction? h, History.maxLength_endLiveSlot,
      History.maxLength_endLiveSlot, History.length_endLiveSlot, History.length_endLiveSlot,
      hlength, hmax, hslot]
    exact ⟨rfl, rfl⟩

theorem endLiveSlot_driven (s : Session) (calls : Nat → SessionCall) (n : Nat) :
    (s.driven calls n).editor.history.endLiveSlot.length = s.editor.history.endLiveSlot.length ∧
      (s.driven calls n).editor.history.endLiveSlot.maxLength =
        s.editor.history.endLiveSlot.maxLength := by
  induction n with
  | zero => exact ⟨rfl, rfl⟩
  | succ n ih =>
    obtain ⟨hlength, hmax⟩ := (s.driven calls n).endLiveSlot_called (calls n)
    exact ⟨hlength.trans ih.1, hmax.trans ih.2⟩

/-- After a session there are as many entries as it found room for, and no live slot. -/
theorem finish_driven_keeps (hfinished : s.finished = false) (calls : Nat → SessionCall) (n : Nat) :
    (s.driven calls n).finish.editor.history.length = s.editor.history.endLiveSlot.length ∧
      (s.driven calls n).finish.editor.history.maxLength =
        s.editor.history.endLiveSlot.maxLength ∧
      (s.driven calls n).finish.editor.history.hasLiveSlot = false := by
  obtain ⟨hlength, hmax⟩ := s.endLiveSlot_driven calls n
  rw [history_finish ((s.finished_driven calls n).trans hfinished)]
  exact ⟨hlength, hmax, (s.driven calls n).editor.history.hasLiveSlot_endLiveSlot⟩

/-- **The entries after a session.** Each is what was last written to it, or it is as it was. -/
theorem getElem?_finish_driven (hfinished : s.finished = false) (calls : Nat → SessionCall)
    (n p : Nat) :
    (s.driven calls n).finish.editor.history.entries[p]? =
      s.editor.history.endLiveSlot.entries[p]?.map fun entry =>
        (s.lastShown calls (Overwrites p) n).getD entry := by
  have hlength := (s.endLiveSlot_driven calls n).1
  rw [history_finish ((s.finished_driven calls n).trans hfinished)]
  by_cases hp : p < s.editor.history.endLiveSlot.length
  · obtain ⟨hbefore, hentry⟩ := History.getElem?_endLiveSlot (hlength.symm ▸ hp)
    obtain ⟨hstored, hentries⟩ := getElem?_driven hbefore
    rw [hentry, hentries, (History.getElem?_endLiveSlot hp).2,
      List.getElem?_eq_getElem (l := s.editor.history.entries) hstored]
    cases s.lastShown calls (Overwrites p) n <;> rfl
  · rw [List.getElem?_eq_none (Nat.not_lt.mp hp), List.getElem?_eq_none]
    · rfl
    · exact Nat.not_lt.mp fun hp' => hp (hlength ▸ hp')

/-! ### The start of a session -/

section Start

variable {editor : Editor} {mode : RawMode} {input : Input} {output : Output} {prompt : Text}

theorem finished_start (hstart : start editor mode input output prompt = .ok s) :
    s.finished = false := by
  rcases start_eq_ok hstart with rfl | rfl <;> rfl

/-- The entries that a session keeps: all of them, but for the oldest one if it has to make room. -/
theorem endLiveSlot_start (hstart : start editor mode input output prompt = .ok s)
    (hslot : editor.history.hasLiveSlot = false) :
    s.editor.history.endLiveSlot =
      { editor.history with
        entries :=
          if s.isTerminal = true ∧ editor.history.maxLength ≤ editor.history.length then
            editor.history.entries.drop 1
          else editor.history.entries } := by
  rcases start_eq_ok hstart with rfl | rfl
  · exact History.endLiveSlot_of_not_hasLiveSlot hslot
  · refine (History.endLiveSlot_beginLiveSlot hslot).trans ?_
    simp only [unopened, true_and]
    rfl

/-! ### Sessions without browsing -/

/-- **A session without browsing.** It leaves all entries alone, except that in a full history the
oldest one has to make room for the line that is edited on a terminal. -/
theorem history_finish_of_quiet (hstart : start editor mode input output prompt = .ok s)
    (hslot : editor.history.hasLiveSlot = false)
    (hquiet : ∀ m < n, (s.driven calls m).direction? (calls m) = none) :
    (s.driven calls n).finish.editor.history =
      { editor.history with
        entries :=
          if s.isTerminal = true ∧ editor.history.maxLength ≤ editor.history.length then
            editor.history.entries.drop 1
          else editor.history.entries } := by
  rw [← endLiveSlot_start hstart hslot]
  obtain ⟨-, hmax, hlive⟩ := finish_driven_keeps (finished_start hstart) calls n
  refine History.ext (List.ext_getElem? fun p => ?_) hmax
    (hlive.trans s.editor.history.hasLiveSlot_endLiveSlot.symm)
  have hnone : s.lastShown calls (Overwrites p) n = none :=
    lastShown_eq_none_iff.mpr fun m hm => not_overwrites_of_direction? (hquiet m hm) p
  rw [getElem?_finish_driven (finished_start hstart), hnone]
  exact Option.map_id'

/-- A history of one entry that has no room for another one. -/
def fullEditor : Editor :=
  { Editor.ofConfig .default (.ofColumns 80) with history := ⟨[['a']], 1, false⟩ }

/-- A character, and the key that enters the line. -/
def typedKeys : List UInt8 := Utf8.encode ['x'] ++ [0x0D]

/-- In a full history the oldest entry is gone after a session. -/
theorem history_finish_of_quiet_typedKeys : ∃ s,
    start fullEditor .ofPipe (.ofBytes typedKeys true false none) (.fresh none) ['>', ' '] = .ok s ∧
    (s.driven (fun _ => .feed) 2).finish.editor.history = ⟨[], 1, false⟩ := by
  obtain ⟨s, hstart, hterminal, hquiet⟩ : ∃ s,
      start fullEditor .ofPipe (.ofBytes typedKeys true false none) (.fresh none) ['>', ' '] =
        .ok s ∧ s.isTerminal = true ∧
      ∀ m < 2, (s.driven (fun _ => .feed) m).direction? .feed = none :=
    ⟨_, rfl, rfl, by decide +kernel⟩
  refine ⟨s, hstart, (history_finish_of_quiet hstart rfl hquiet).trans ?_⟩
  rw [hterminal]
  rfl

/-- So a session without browsing can change the history. -/
theorem exists_history_finish_ne : ¬∀ (editor : Editor) (mode : RawMode) (input : Input)
    (output : Output) (prompt : Text) (s : Session) (calls : Nat → SessionCall) (n : Nat),
    start editor mode input output prompt = .ok s → editor.history.hasLiveSlot = false →
      (∀ m < n, (s.driven calls m).direction? (calls m) = none) →
        (s.driven calls n).finish.editor.history.entries = editor.history.entries := by
  intro h
  have hfull := h fullEditor .ofPipe (.ofBytes typedKeys true false none) (.fresh none) ['>', ' ']
    _ (fun _ => .feed) 2 rfl rfl (by decide +kernel)
  exact absurd hfull (by decide +kernel)

/-! ### Sessions that only browse -/

/-- The line is the entry that is edited, cut to the capacity, and no candidate is shown. -/
structure Recalled (s : Session) : Prop extends s.Opened where
  idle : s.cycle = .idle
  text_eq : (s.editor.history.slot? s.historyIndex).map (Line.cut s.line.capacity) =
    some s.line.text

/-- So it is at the start of a session on a terminal, with the empty line in the live slot. -/
theorem recalled_of_start (hstart : start editor mode input output prompt = .ok s)
    (hterminal : s.isTerminal = true) (hslot : editor.history.hasLiveSlot = false) :
    s.Recalled := by
  have hopened := opened_of_start hstart hterminal fun hlive =>
    absurd (hslot.symm.trans hlive) Bool.false_ne_true
  obtain rfl := start_eq_of_isTerminal hstart hterminal
  refine ⟨hopened, rfl, ?_⟩
  change (editor.history.beginLiveSlot.slot? 0).map (Line.cut editor.config.capacity) = some []
  rw [History.slot?_beginLiveSlot hslot]
  exact congrArg some (Line.cut_of_le (Nat.zero_le _))

/-- While no keys are read but those that browse, the line is the entry that is edited, cut to the
capacity. -/
theorem Recalled.line_of_browsing (h : s.Recalled) (hmore : s.Ongoing calls n)
    (hkeys : ∀ m < n, ∀ k ∈ (s.driven calls m).key? (calls m), k = .up ∨ k = .down) :
    (s.driven calls n).cycle = .idle ∧
      (s.editor.history.slot? (s.driven calls n).historyIndex).map (Line.cut s.line.capacity) =
        some (s.driven calls n).line.text := by
  induction n using Nat.strongRecOn with
  | _ n ih =>
  cases n with
  | zero => exact ⟨h.idle, h.text_eq⟩
  | succ n =>
    have hbefore := hmore.mono (Nat.le_succ n)
    have hearlier (m : Nat) (hm : m ≤ n) := ih m (Nat.lt_succ_of_le hm)
      (hmore.mono (Nat.le_succ_of_le hm)) fun k hk => hkeys k (by omega)
    obtain ⟨hcycle, hline⟩ := hearlier n (Nat.le_refl n)
    rw [driven]
    cases hkey : (s.driven calls n).key? (calls n) with
    | none =>
      obtain ⟨hsame, hcycle', -⟩ := called_of_key?_eq_none hkey
      have hnone : (s.driven calls n).direction? (calls n) = none := by
        rw [direction?, hkey]
        rfl
      rw [hcycle', hsame, historyIndex_of_direction?_eq_none hnone]
      exact ⟨hcycle, hline⟩
    | some k =>
      obtain ⟨d, hd⟩ : ∃ d, (s.driven calls n).direction? (calls n) = some d := by
        rw [direction?, hkey]
        rcases hkeys n (Nat.lt_succ_self n) k hkey with rfl | rfl
        · exact ⟨.older, rfl⟩
        · exact ⟨.newer, rfl⟩
      refine ⟨(called_of_direction? hd).2.2.2, ?_⟩
      cases hnext : d.next? (s.driven calls n).editor.history.length
          (s.driven calls n).historyIndex with
      | none =>
        obtain ⟨hindex, hstays⟩ := (h.driven hbefore).stays hd hnext
        rw [hindex, hstays, shownLine_of_idle hcycle, hline]
      | some i =>
        obtain ⟨hindex, -, stored, hstored, htext⟩ := h.arrives_driven hbefore hd hnext
        rw [hindex, htext, hstored]
        cases hleft : s.lastShown calls (Leaves i) n with
        | none => rfl
        | some t =>
          -- The slot was left before, and the line was the entry in it then.
          obtain ⟨m, hm, hleaves, rfl⟩ := exists_of_lastShown hleft
          obtain ⟨hcycle', hline'⟩ := hearlier m (Nat.le_of_lt hm)
          rw [hleaves.1, hstored] at hline'
          rw [hline', shownLine_of_idle hcycle']
          rfl

/-- So what a key that browses writes to a place is the entry there, cut to the capacity. -/
theorem Recalled.text_of_overwrites (h : s.Recalled) (hmore : s.Ongoing calls n)
    (hkeys : ∀ m < n, ∀ k ∈ (s.driven calls m).key? (calls m), k = .up ∨ k = .down) {p : Nat}
    (hwrites : (s.driven calls n).Overwrites p (calls n)) {entry : Text}
    (hentry : s.editor.history.entries[p]? = some entry) :
    (s.driven calls n).shownLine.text = Line.cut s.line.capacity entry := by
  obtain ⟨hcycle, hline⟩ := h.line_of_browsing hmore hkeys
  have hindex := (h.driven hmore).index_lt
  obtain ⟨-, -, rfl⟩ := hwrites
  rw [length_driven hmore] at hindex
  rw [History.slot?_eq_getElem?_place hindex, ← place_driven hmore, hentry] at hline
  rw [shownLine_of_idle hcycle]
  exact (Option.some.inj hline).symm

/-- So an entry is cut if it is written to. The last key may be one that ends the edit. -/
theorem Recalled.written_of_browsing (h : s.Recalled) (hmore : s.Ongoing calls (n - 1))
    (hkeys : ∀ m < n, ∀ k ∈ (s.driven calls m).key? (calls m),
      k = .up ∨ k = .down ∨ (s.driven calls m).Ends (calls m))
    {p : Nat} {entry : Text} (hentry : s.editor.history.entries[p]? = some entry) :
    (s.lastShown calls (Overwrites p) n).getD entry =
      if ∃ m < n, (s.driven calls m).Overwrites p (calls m) then
        Line.cut s.line.capacity entry else entry := by
  cases hlast : s.lastShown calls (Overwrites p) n with
  | none =>
    rw [if_neg fun ⟨m, hm, hwrites⟩ => lastShown_eq_none_iff.mp hlast m hm hwrites]
    rfl
  | some t =>
    obtain ⟨m, hm, hwrites, rfl⟩ := exists_of_lastShown hlast
    have hbefore : s.Ongoing calls m := hmore.mono (by omega)
    rw [if_pos ⟨m, hm, hwrites⟩]
    refine h.text_of_overwrites hbefore (fun m' hm' k hk => ?_) hwrites hentry
    rcases hkeys m' (Nat.lt_trans hm' hm) k hk with hup | hdown | hend
    · exact Or.inl hup
    · exact Or.inr hdown
    · exact absurd hend (hbefore m' hm')

/-- **A session that only browses.** If there is room for the live slot, there are as many entries
afterwards as before. An entry is cut to the capacity if a key that browses was read while it was
recalled, and the others are what they were; so all that fit into a line are what they were. -/
theorem entries_finish_of_browsing (hstart : start editor mode input output prompt = .ok s)
    (hterminal : s.isTerminal = true) (hslot : editor.history.hasLiveSlot = false)
    (hroom : editor.history.length < editor.history.maxLength)
    (hmore : s.Ongoing calls (n - 1))
    (hkeys : ∀ m < n, ∀ k ∈ (s.driven calls m).key? (calls m),
      k = .up ∨ k = .down ∨ (s.driven calls m).Ends (calls m)) :
    (s.driven calls n).finish.editor.history.length = editor.history.length ∧
      ∀ p entry, editor.history.entries[p]? = some entry →
        (s.driven calls n).finish.editor.history.entries[p]? =
            some (if ∃ m < n, (s.driven calls m).Overwrites p (calls m) then
              Line.cut editor.config.capacity entry else entry) ∧
          (byteLength entry ≤ editor.config.capacity →
            (s.driven calls n).finish.editor.history.entries[p]? = some entry) := by
  have hfinished := finished_start hstart
  have hkept : s.editor.history.endLiveSlot = editor.history := by
    rw [endLiveSlot_start hstart hslot, if_neg fun hfull => Nat.not_le.mpr hroom hfull.2]
  refine ⟨(congrArg History.length hkept) ▸ (finish_driven_keeps hfinished calls n).1, ?_⟩
  intro p entry hentry
  have hstored : s.editor.history.entries[p]? = some entry := by
    rw [← hkept] at hentry
    rw [← hentry]
    refine (History.getElem?_endLiveSlot ?_).2.symm
    exact (List.getElem?_eq_some_iff.mp hentry).1
  rw [getElem?_finish_driven hfinished, hkept, hentry, Option.map_some,
    (recalled_of_start hstart hterminal hslot).written_of_browsing hmore hkeys hstored,
    capacity_start hstart]
  refine ⟨rfl, fun hle => ?_⟩
  rw [Line.cut_of_le hle, ite_self]

/-- Two keys up and one down, and the key that enters the line. -/
def browsingKeys : List UInt8 := [0x10, 0x10, 0x0E, 0x0D]

/-- The older entry is too long for a line. It was recalled and left, and is cut. -/
theorem entries_finish_of_browsing_browsingKeys : ∃ s,
    start climbingEditor .ofPipe (.ofBytes browsingKeys true false none) (.fresh none)
      ['>', ' '] = .ok s ∧
    (s.driven (fun _ => .feed) 4).finish.editor.history.length = 2 ∧
    (s.driven (fun _ => .feed) 4).finish.editor.history.entries[0]? = some ['o', 'l'] ∧
    (s.driven (fun _ => .feed) 4).finish.editor.history.entries[1]? = some ['n'] := by
  obtain ⟨s, hstart, hterminal, hmore, hkeys, hwrites⟩ : ∃ s,
      start climbingEditor .ofPipe (.ofBytes browsingKeys true false none) (.fresh none)
        ['>', ' '] = .ok s ∧ s.isTerminal = true ∧ s.Ongoing (fun _ => .feed) 3 ∧
      (∀ m < 4, ∀ k ∈ (s.driven (fun _ => .feed) m).key? .feed,
        k = .up ∨ k = .down ∨ (s.driven (fun _ => .feed) m).Ends .feed) ∧
      ∃ m < 4, (s.driven (fun _ => .feed) m).Overwrites 0 .feed :=
    ⟨_, rfl, rfl, by decide +kernel, by decide +kernel, by decide +kernel⟩
  obtain ⟨hlength, hentries⟩ :=
    entries_finish_of_browsing hstart hterminal rfl (by decide) hmore hkeys
  refine ⟨s, hstart, hlength, ?_, (hentries 1 ['n'] rfl).2 (by decide)⟩
  rw [(hentries 0 ['o', 'l', 'd'] rfl).1, if_pos hwrites]
  decide

/-- So a session that only browses can change an entry. -/
theorem exists_browsing_cuts : ¬∀ (editor : Editor) (mode : RawMode) (input : Input)
    (output : Output) (prompt : Text) (s : Session) (calls : Nat → SessionCall) (n : Nat),
    start editor mode input output prompt = .ok s → s.isTerminal = true →
      editor.history.hasLiveSlot = false → editor.history.length < editor.history.maxLength →
        s.Ongoing calls (n - 1) →
          (∀ m < n, ∀ k ∈ (s.driven calls m).key? (calls m),
            k = .up ∨ k = .down ∨ (s.driven calls m).Ends (calls m)) →
            (s.driven calls n).finish.editor.history.entries = editor.history.entries := by
  intro h
  have hcut := h climbingEditor .ofPipe (.ofBytes browsingKeys true false none) (.fresh none)
    ['>', ' '] _ (fun _ => .feed) 4 rfl rfl rfl (by decide) (by decide +kernel) (by decide +kernel)
  exact absurd hcut (by decide +kernel)

end Start

end Session

end Typeline
