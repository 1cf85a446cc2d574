import Typeline.Proofs.Session.Pairs
import Typeline.Proofs.Session.Range

/-!
# Editing does not depend on how it is shown

How a line is shown is a matter of settings: on one row or on several, masked or not, behind one
prompt or another, on a terminal of some width, with hints or without, and on a terminal that may
lose what is written to it. None of this is ever asked for when a key is read or a line is changed.
So two sessions that differ in nothing else read the same keys, come to the same results and lines,
and leave the same history.

Over an alphabet of characters that never join no cursor ever stands inside of a cluster, so that
both sessions also stay in range, which is needed for a key to have a result at all.

## Main definitions

* `Editor.EditsLike` : editors that differ in nothing but how lines are shown.
* `Editor.SpelledIn` : all entries and candidates are spelled in an alphabet.
* `Session.keyboard`, `SessionCall.taken` : the keyboard of a session, and what a call takes of it.

## Main results

* `Session.keyboard_driven` : the same calls leave the same of a keyboard.
* `Session.paired_driven` : the same calls keep the sessions alike.
* `Session.driven_eq_driven` : results, lines and histories do not depend on how lines are shown.
-/

namespace Typeline

/-- Editors that differ in nothing but how lines are shown. -/
structure Editor.EditsLike (editor editor' : Editor) : Prop where
  completer_eq : editor'.completer = editor.completer
  history_eq : editor'.history = editor.history
  capacity_eq : editor'.config.capacity = editor.config.capacity

/-- All entries of the history are spelled in an alphabet, and so are all candidates for lines that
are. -/
structure Editor.SpelledIn (A : Alphabet) (editor : Editor) : Prop where
  entries : ∀ t ∈ editor.history.entries, A.Spells t
  candidates : ∀ completer ∈ editor.completer, ∀ t, A.Spells t →
    ∀ candidate ∈ completer t, A.Spells candidate

/-- Any two terminals. -/
def DisplayRelation.any (r : Likeness) : DisplayRelation r where
  Holds _ _ := True
  write _ _ := trivial
  clear _ := trivial
  draw _ _ _ _ := trivial
  type _ _ _ _ := trivial
  enter _ _ := trivial

/-- What a call leaves of a keyboard, which is a reader of keys with its input. -/
def SessionCall.taken (keyboard : KeyDecoder × Input) : SessionCall → KeyDecoder × Input
  | .feed => (keyboard.1.read keyboard.2).2
  | .push more => (keyboard.1, keyboard.2.push more)
  | _ => keyboard

namespace Session

variable {s t : Session} {calls : Nat → SessionCall} {n : Nat}

/-! ### The keyboard -/

/-- The keyboard of a session. -/
def keyboard (s : Session) : KeyDecoder × Input := (s.decoder, s.input)

private theorem keyboard_called (h : s.isTerminal = true) (c : SessionCall) :
    (s.called c).keyboard = c.taken s.keyboard := by
  cases c with
  | feed =>
    rw [called, feed_eq_respond h]
    rfl
  | hide =>
    rw [called, hide_of_isTerminal h]
    rfl
  | reveal =>
    rw [called, reveal_of_isTerminal h]
    rfl
  | printAbove u =>
    rw [called, printAbove, hide_of_isTerminal h, reveal]
    split <;> rfl
  | push more => rfl

/-- **The same calls leave the same of a keyboard.** -/
theorem keyboard_driven (hs : s.isTerminal = true) (ht : t.isTerminal = true)
    (hkeyboard : t.keyboard = s.keyboard) (calls : Nat → SessionCall) (n : Nat) :
    (t.driven calls n).keyboard = (s.driven calls n).keyboard := by
  induction n with
  | zero => exact hkeyboard
  | succ n ih =>
    rw [driven, driven, keyboard_called (isTerminal_driven ht calls n),
      keyboard_called (isTerminal_driven hs calls n), ih]

theorem key?_eq (h : s.isTerminal = true) : s.key? .feed = s.reading.key? := if_pos h

theorem reading_eq_of_keyboard (h : t.keyboard = s.keyboard) : t.reading = s.reading :=
  congrArg (fun keyboard : KeyDecoder × Input => (keyboard.1.read keyboard.2).1) h

/-! ### Lines in an alphabet -/

/-- The line that is shown is spelled in an alphabet if the line and the candidates are. -/
theorem spells_shownLine {A : Alphabet} (hline : A.Spells s.line.text)
    (hcandidates : ∀ candidate ∈ s.candidates, A.Spells candidate) :
    A.Spells s.shownLine.text := by
  rw [shownLine]
  split
  · next candidate hcandidate =>
    obtain ⟨i, -, hi⟩ := Option.bind_eq_some_iff.mp hcandidate
    have hspells := hcandidates candidate (List.mem_of_getElem? hi)
    rw [Line.setText_of_spells hspells, Line.text, List.reverse_reverse, List.append_nil]
    exact hspells.of_subset (Line.longestPrefix_subset _ _)
  · exact hline

theorem Beside.spells {r : CharLikeness} {D : DisplayRelation r.likeness} (h : Beside D s t) :
    r.alphabet.Spells s.shownLine.text ∧ r.alphabet.Spells t.shownLine.text := by
  have htexts : r.Texts s.line.text t.line.text := h.edit.text
  have hcandidates := CharLikeness.spells_of_forall₂ h.edit.candidates
  exact ⟨spells_shownLine htexts.spells.1 hcandidates.1,
    spells_shownLine htexts.spells.2 hcandidates.2⟩

/-- In a line that is spelled in an alphabet the cursor stands between two clusters. -/
theorem onBoundary_of_spells {A : Alphabet} {l : Line} (h : A.Spells l.text) : l.OnBoundary := by
  rw [Line.text, Alphabet.spells_append, Alphabet.spells_reverse] at h
  exact Alphabet.isBoundary_of_spells h.1 h.2

/-- **Lines in an alphabet keep the columns in range.** -/
theorem inRange_driven_of_spells {A : Alphabet}
    (hshown : ∀ m ≤ n, A.Spells (s.driven calls m).shownLine.text)
    (hrange : ∀ m ≤ n, s.HasRange (byteLength (s.driven calls m).shownLine.text)) :
    (s.driven calls n).inRange = s.inRange :=
  inRange_driven fun m hm => ⟨onBoundary_of_spells (hshown m hm), hrange m hm⟩

/-! ### The same calls -/

section SameCalls

variable {r : Likeness} {D : DisplayRelation r} (h : Paired D s t)
  (hs : s.isTerminal = true) (ht : t.isTerminal = true) (hkeyboard : t.keyboard = s.keyboard)

include h hs ht hkeyboard

/-- **The same calls keep the sessions alike** until the edit is over, and afterwards if both let a
line take several rows or neither does. -/
theorem paired_driven (hreadings : ∀ m < n, calls m = .feed →
      r.Readings (s.driven calls m).reading (s.driven calls m).reading)
    (hmore : s.Ongoing calls n ∨ SameRows s t) :
    Paired D (s.driven calls n) (t.driven calls n) := by
  refine h.driven hs ht (fun m _ => .same (calls m)) (fun m hm hfeed => ?_) hmore
  rw [reading_eq_of_keyboard (keyboard_driven hs ht hkeyboard calls m)]
  exact hreadings m hm hfeed

/-- So do they up to a key, and that key has results that are alike. -/
theorem outcomes_driven (hreadings : ∀ m ≤ n, calls m = .feed →
      r.Readings (s.driven calls m).reading (s.driven calls m).reading)
    (hmore : s.Ongoing calls n ∨ SameRows s t) (hfeed : calls n = .feed) :
    Outcomes D (SameRows s t) (s.driven calls n).feed (t.driven calls n).feed := by
  have hpaired := paired_driven h hs ht hkeyboard (fun m hm => hreadings m hm.le) hmore
  have hkeyboard' := keyboard_driven hs ht hkeyboard calls n
  have houtcomes := hpaired.feed (isTerminal_driven hs calls n) (isTerminal_driven ht calls n)
    (by rw [reading_eq_of_keyboard hkeyboard']; exact hreadings n (Nat.le_refl n) hfeed)
  rwa [sameRows_congr (s.settings_driven calls n) (t.settings_driven calls n)] at houtcomes

/-- Up to and after that key, the sessions are alike but perhaps for the cursors. -/
theorem beside_driven (hreadings : ∀ m ≤ n, calls m = .feed →
      r.Readings (s.driven calls m).reading (s.driven calls m).reading)
    (hmore : s.Ongoing calls n ∨ SameRows s t) (hfeed : calls n = .feed) {m : Nat}
    (hm : m ≤ n + 1) : Beside D (s.driven calls m) (t.driven calls m) := by
  rcases Nat.lt_or_eq_of_le hm with hm | rfl
  · have hle : m ≤ n := Nat.le_of_lt_succ hm
    exact (paired_driven h hs ht hkeyboard (fun k hk => hreadings k (hk.le.trans hle))
      (hmore.imp (·.mono hle) id)).toBeside
  · rw [driven, driven, hfeed]
    exact (outcomes_driven h hs ht hkeyboard hreadings hmore hfeed).beside

end SameCalls

/-! ### From the start -/

section Start

variable {editor editor' : Editor} {mode mode' : RawMode} {input : Input}
  {output output' : Output} {prompt prompt' : Text}

/-- A session on a terminal of fixed width starts with the keyboard it is given. -/
theorem keyboard_start (hstart : start editor mode input output prompt = .ok s)
    (hs : s.isTerminal = true) {columns : Nat}
    (hcolumns : editor.terminal.fixedColumns = some columns) :
    s.keyboard = (.idle, input) ∧ s.inRange = true := by
  have hfound : findColumns editor.terminal input output = (columns, input, output) :=
    findColumns_of_known (by rw [hcolumns]; rfl)
  obtain rfl := start_eq_of_isTerminal hstart hs
  rw [hfound]
  exact ⟨rfl, rfl⟩

section Two

variable (hstart : start editor mode input output prompt = .ok s) (hs : s.isTerminal = true)
  (hstart' : start editor' mode' input output' prompt' = .ok t) (ht : t.isTerminal = true)

include hstart hs hstart' ht

private theorem sameRows_iff :
    SameRows s t ↔ editor'.config.multiline = editor.config.multiline := by
  obtain ⟨-, hconfig, -⟩ := settings_start hstart hs
  obtain ⟨-, hconfig', -⟩ := settings_start hstart' ht
  rw [SameRows, show s.editor.config = editor.config from hconfig,
    show t.editor.config = editor'.config from hconfig']

variable (hlike : editor.EditsLike editor')

include hlike

private theorem paired_start : Paired (.any .equality) s t := by
  refine .of_start hstart hs hstart' ht hlike.capacity_eq ?_ ?_ trivial
  · rw [hlike.completer_eq]
    cases editor.completer with
    | none => exact .none
    | some completer =>
      refine .some fun u v huv => ?_
      rw [show v = u from huv]
      exact List.forall₂_same.mpr fun _ _ => rfl
  · rw [hlike.history_eq]
    exact Likeness.histories_equality _

private theorem paired_start_of_spelledIn {A : Alphabet} (hspelled : editor.SpelledIn A) :
    Paired (.any (CharLikeness.same A).likeness) s t := by
  refine .of_start hstart hs hstart' ht hlike.capacity_eq ?_ ?_ trivial
  · rw [hlike.completer_eq]
    cases hcompleter : editor.completer with
    | none => exact .none
    | some completer =>
      refine .some fun u v huv => ?_
      obtain ⟨rfl, hspells⟩ := CharLikeness.texts_same_iff.mp huv
      exact List.forall₂_same.mpr fun candidate hmem => CharLikeness.texts_same_iff.mpr
        ⟨rfl, hspelled.candidates completer hcompleter v hspells candidate hmem⟩
  · rw [hlike.history_eq]
    exact Likeness.histories_same hspelled.entries

end Two

/-- **Editing does not depend on how it is shown.** Let two editors differ in nothing but how lines
are shown, and let each start a session on a terminal of a fixed width, with the same keyboard. Then
the same calls lead to the same results and to the same lines, and the histories are the same
whenever the sessions are finished. The cursors are in the same place as long as the edit goes on;
the key that enters the line may leave them in different places, if one session lets a line take
several rows and the other does not. Over an alphabet both sessions stay in range as long as prompt,
line and terminal together are not astronomically wide. -/
theorem driven_eq_driven
    (hstart : start editor mode input output prompt = .ok s) (hs : s.isTerminal = true)
    (hstart' : start editor' mode' input output' prompt' = .ok t) (ht : t.isTerminal = true)
    (hlike : editor.EditsLike editor') {columns columns' : Nat}
    (hcolumns : editor.terminal.fixedColumns = some columns)
    (hcolumns' : editor'.terminal.fixedColumns = some columns')
    (hmore : s.Ongoing calls n ∨ editor'.config.multiline = editor.config.multiline)
    (hfeed : calls n = .feed) :
    (t.driven calls n).feed.1 = (s.driven calls n).feed.1 ∧
      (t.driven calls n).feed.2.line.text = (s.driven calls n).feed.2.line.text ∧
      (¬(s.driven calls n).Ends .feed →
        (t.driven calls n).feed.2.line.cursor = (s.driven calls n).feed.2.line.cursor) ∧
      (t.driven calls n).feed.2.finish.editor.history =
        (s.driven calls n).feed.2.finish.editor.history ∧
      ∀ A : Alphabet, editor.SpelledIn A →
        (∀ m ≤ n, ∀ k ∈ (s.driven calls m).key? (calls m), k.SpelledIn A) →
        ((∀ m ≤ n + 1, s.HasRange (byteLength (s.driven calls m).shownLine.text)) →
          (s.driven calls n).feed.2.inRange = true) ∧
        ((∀ m ≤ n + 1, t.HasRange (byteLength (t.driven calls m).shownLine.text)) →
          (t.driven calls n).feed.2.inRange = true) := by
  obtain ⟨hkeyboard, hinRange⟩ := keyboard_start hstart hs hcolumns
  obtain ⟨hkeyboard', hinRange'⟩ := keyboard_start hstart' ht hcolumns'
  have hsame := hkeyboard'.trans hkeyboard.symm
  have hrows : s.Ongoing calls n ∨ SameRows s t := by
    rwa [sameRows_iff hstart hs hstart' ht]
  have hpaired := paired_start hstart hs hstart' ht hlike
  obtain ⟨hresult, hbeside, hline⟩ := outcomes_driven hpaired hs ht hsame
    (fun m _ _ => Likeness.readings_equality _) hrows hfeed
  have hlast : s.driven calls (n + 1) = (s.driven calls n).feed.2 := by rw [driven, hfeed, called]
  have hlast' : t.driven calls (n + 1) = (t.driven calls n).feed.2 := by rw [driven, hfeed, called]
  have hfinish : Beside (.any .equality) (s.driven calls n).feed.2.finish
      (t.driven calls n).feed.2.finish :=
    hbeside.finish (hlast ▸ isTerminal_driven hs calls (n + 1))
      (hlast' ▸ isTerminal_driven ht calls (n + 1))
  refine ⟨hresult.eq_of_equality, hbeside.edit.text, fun hends => ?_,
    hfinish.edit.history.eq_of_equality, fun A hspelled hkeys => ?_⟩
  · have hlines : (t.driven calls n).feed.2.line = (s.driven calls n).feed.2.line :=
      hline (Or.inl fun e hdone => hends ⟨rfl, e, hdone⟩)
    rw [hlines]
  · have hpaired := paired_start_of_spelledIn hstart hs hstart' ht hlike hspelled
    have hshown {m : Nat} (hm : m ≤ n + 1) : A.Spells (s.driven calls m).shownLine.text ∧
        A.Spells (t.driven calls m).shownLine.text := by
      refine (beside_driven hpaired hs ht hsame (fun m hm hfeed => ?_) hrows hfeed hm).spells
      have hread := hkeys m hm
      rw [hfeed, key?_eq (isTerminal_driven hs calls m)] at hread
      exact Likeness.readings_same hread
    rw [← hlast, ← hlast']
    exact ⟨fun hrange => (inRange_driven_of_spells (fun m hm => (hshown hm).1) hrange).trans
        hinRange,
      fun hrange => (inRange_driven_of_spells (fun m hm => (hshown hm).2) hrange).trans hinRange'⟩

/-- An editor with completions and one entry in its history. -/
def recallingEditor (config : EditorConfig) (columns : Nat) (hinter : Option Hinter) : Editor where
  config := config
  terminal := .ofColumns columns
  completer := some fun t => [t ++ ['語'], ['a', ' ']]
  hinter := hinter
  history := ⟨[['o', 'l', 'd']], 3, false⟩

/-- Keys that type, move the cursor, complete, recall an entry, come back and enter the line. -/
def mixedKeys : List UInt8 :=
  Utf8.encode ['a', 'b'] ++ [0x1B, 0x5B, 0x44] ++ Utf8.encode ['語'] ++
    [0x09, 0x09, 0x10, 0x0E, 0x0D]

/-- A device on which every other write fails, and only a character of it gets through. -/
def faultyOutput : Output := ⟨[], 0, fun n => if n % 2 = 0 then .failed 1 else .done⟩

/-- A session on a single row, and one that masks and wraps its lines, gives hints and loses every
other write, come to the same end with these keys. -/
theorem driven_eq_driven_mixedKeys : ∃ s t,
    start (recallingEditor ⟨false, false, 20⟩ 80 none) .ofPipe (.ofBytes mixedKeys true false none)
      (.fresh none) ['>'] = .ok s ∧
    start (recallingEditor ⟨true, true, 20⟩ 4 (some fun _ => some ⟨['!'], none, false⟩)) .ofPipe
      (.ofBytes mixedKeys true false none) faultyOutput [':', ' '] = .ok t ∧
    (s.driven (fun _ => .feed) 8).feed.1 = .done (.line ['a', ' ']) ∧
    (t.driven (fun _ => .feed) 8).feed.1 = .done (.line ['a', ' ']) ∧
    (t.driven (fun _ => .feed) 8).feed.2.finish.editor.history =
      (s.driven (fun _ => .feed) 8).feed.2.finish.editor.history ∧
    (s.driven (fun _ => .feed) 8).feed.2.inRange = true ∧
    (t.driven (fun _ => .feed) 8).feed.2.inRange = true := by
  obtain ⟨s, hstart, hs, hmore, hkeys, hrange, hline⟩ : ∃ s,
      start (recallingEditor ⟨false, false, 20⟩ 80 none) .ofPipe
        (.ofBytes mixedKeys true false none) (.fresh none) ['>'] = .ok s ∧ s.isTerminal = true ∧
      s.Ongoing (fun _ => .feed) 8 ∧
      (∀ m ≤ 8, ∀ k ∈ (s.driven (fun _ => .feed) m).key? .feed, k.SpelledIn .ordinary) ∧
      (∀ m ≤ 9, s.HasRange (byteLength (s.driven (fun _ => .feed) m).shownLine.text)) ∧
      (s.driven (fun _ => .feed) 8).feed.1 = .done (.line ['a', ' ']) :=
    ⟨_, rfl, rfl, by decide +kernel, by decide +kernel, by decide +kernel, by decide +kernel⟩
  obtain ⟨t, hstart', ht, hrange'⟩ : ∃ t,
      start (recallingEditor ⟨true, true, 20⟩ 4 (some fun _ => some ⟨['!'], none, false⟩)) .ofPipe
        (.ofBytes mixedKeys true false none) faultyOutput [':', ' '] = .ok t ∧
      t.isTerminal = true ∧
      ∀ m ≤ 9, t.HasRange (byteLength (t.driven (fun _ => .feed) m).shownLine.text) :=
    ⟨_, rfl, rfl, by decide +kernel⟩
  have hspelled : (recallingEditor ⟨false, false, 20⟩ 80 none).SpelledIn .ordinary := by
    refine ⟨by decide +kernel, fun completer hcompleter u hu => ?_⟩
    obtain rfl := Option.mem_some.mp hcompleter
    exact List.forall_mem_cons.mpr ⟨Alphabet.spells_append.mpr ⟨hu, by decide +kernel⟩,
      List.forall_mem_singleton.mpr (by decide +kernel)⟩
  obtain ⟨hresult, -, -, hhistory, hinRange⟩ :=
    driven_eq_driven hstart hs hstart' ht ⟨rfl, rfl, rfl⟩ rfl rfl (Or.inl hmore) rfl
  obtain ⟨hinRange, hinRange'⟩ := hinRange .ordinary hspelled hkeys
  exact ⟨s, t, hstart, hstart', hline, hresult.trans hline, hhistory, hinRange hrange,
    hinRange' hrange'⟩

end Start

end Session

end Typeline
