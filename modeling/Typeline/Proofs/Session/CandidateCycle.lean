import Typeline.Proofs.Session.Likeness

/-!
# The cycle through the candidates

Pressing the completion key again and again shows one candidate after another in place of the line,
and after the last one the line itself, with the bell, from where it goes on with the first one. The
line is not touched meanwhile. The escape key goes back to it; any other key takes over what is
shown and is then acted on as outside of the cycle. So where a cycle stands can be told from the
number of presses alone, however the keys are read and whatever else is done with the terminal in
between.

## Main definitions

* `Line.cycled` : the line that is shown after so many presses of the completion key.
* `Session.presses` : how many keys have been read.
* `Session.Cycling` : a session that stands in the cycle after so many presses.
* `Session.accepted` : a session that has taken over what is shown.

## Main results

* `Session.Cycling.press_tab` : one more press.
* `Session.cycling_driven` : any number of presses.
* `Session.cycle_of_tabs` : what the completion key and the key after it do.
-/

namespace Typeline

namespace CompletionCycle

/-- The cycle through so many candidates after some presses of the completion key. -/
def after (candidates : Nat) : Nat → CompletionCycle
  | 0 => .idle
  | p + 1 => ⟨some (p % (candidates + 1))⟩

private theorem advance_after (candidates p : Nat) :
    (after candidates p).advance candidates = after candidates (p + 1) := by
  cases p with
  | zero =>
    rw [after, after, Nat.zero_mod]
    rfl
  | succ p =>
    rw [after, after, ← Nat.mod_add_mod]
    rfl

end CompletionCycle

namespace Line

/-- The line that is shown after some presses of the completion key: a candidate, cut to the
capacity and with the cursor at its end, or after the last candidate the line as it was. -/
def cycled (l : Line) (candidates : List Text) : Nat → Line
  | 0 => l
  | p + 1 =>
    match candidates[p % (candidates.length + 1)]? with
    | some candidate => ⟨(cut l.capacity candidate).reverse, [], l.capacity⟩
    | none => l

end Line

namespace Session

variable {s u : Session} {calls : Nat → SessionCall} {n p : Nat} {completer : Completer}

/-- How many keys the first calls have read. -/
def presses (s : Session) (calls : Nat → SessionCall) : Nat → Nat
  | 0 => 0
  | n + 1 => s.presses calls n + ((s.driven calls n).key? (calls n)).isSome.toNat

/-- A session that has taken over what is shown, and has left the cycle. -/
def accepted (s : Session) : Session :=
  { s with line := s.shownLine, cycle := .idle, candidates := [] }.refresh .all

/-- After so many presses of the completion key in `s`, the cycle stands where it should, and the
line is as before. -/
structure Cycling (s : Session) (completer : Completer) (p : Nat) (u : Session) : Prop where
  line_eq : u.line = s.line
  completer_eq : u.editor.completer = some completer
  cycle_eq : u.cycle = .after (completer s.line.text).length p
  candidates_eq : p ≠ 0 → u.candidates = completer s.line.text

/-! ### One key -/

private theorem edit_continueCycle_tab (u : Session) : (u.continueCycle .tab).2.edit =
    { u.edit with cycle := u.cycle.advance u.candidates.length } := by
  rw [continueCycle]
  dsimp only
  split <;> rfl

private theorem display_continueCycle_tab (u : Session) : (u.continueCycle .tab).2.display =
    (if (u.cycle.advance u.candidates.length).index = some u.candidates.length then
        u.display.write ['\x07'] else u.display).draw
      (u.continueCycle .tab).2.shownLine .all true := by
  rw [continueCycle]
  dsimp only
  split <;> rfl

namespace Cycling

variable (h : Cycling s completer p u)

include h

/-- What is shown can be told from the number of presses. -/
theorem shownLine_eq : u.shownLine = s.line.cycled (completer s.line.text) p := by
  cases p with
  | zero =>
    rw [shownLine_of_idle h.cycle_eq, h.line_eq]
    rfl
  | succ p =>
    rw [← accepted_eq_shownLine, h.line_eq, h.cycle_eq, h.candidates_eq (Nat.succ_ne_zero p)]
    simp only [CompletionCycle.after, Option.bind_some, Line.cycled]
    cases (completer s.line.text)[p % ((completer s.line.text).length + 1)]? with
    | none => rfl
    | some candidate => exact Line.setText_eq_cut s.line candidate

/-- Whatever changes nothing but the history and the terminal leaves the cycle where it is. -/
theorem of_edit {v : Session} {history : History} (hedit : v.edit = { u.edit with history }) :
    Cycling s completer p v where
  line_eq := (congrArg SessionEdit.line hedit).trans h.line_eq
  completer_eq := (congrArg SessionEdit.completer hedit).trans h.completer_eq
  cycle_eq := (congrArg SessionEdit.cycle hedit).trans h.cycle_eq
  candidates_eq hp := (congrArg SessionEdit.candidates hedit).trans (h.candidates_eq hp)

theorem isActive (hp : p ≠ 0) : u.cycle.isActive = true := by
  obtain ⟨q, rfl⟩ := Nat.exists_eq_succ_of_ne_zero hp
  rw [h.cycle_eq]
  rfl

/-- The completion key goes on in the cycle, or starts it if there are candidates. -/
theorem complete_tab (hsome : completer s.line.text ≠ []) :
    u.complete .tab = { u with candidates := completer s.line.text }.continueCycle .tab := by
  cases p with
  | zero =>
    rw [complete_tab_of_idle h.cycle_eq, h.completer_eq, h.line_eq]
    exact if_neg (by rwa [List.isEmpty_iff])
  | succ p =>
    rw [complete_of_active (h.isActive (Nat.succ_ne_zero p)),
      ← h.candidates_eq (Nat.succ_ne_zero p)]

/-- **One more press of the completion key.** -/
theorem press_tab (hsome : completer s.line.text ≠ []) :
    (u.press .tab).1 = .more ∧ Cycling s completer (p + 1) (u.press .tab).2 ∧
      (u.press .tab).2.display =
        (if p % ((completer s.line.text).length + 1) = (completer s.line.text).length then
          u.display.write ['\x07'] else u.display).draw
        (s.line.cycled (completer s.line.text) (p + 1)) .all true := by
  let v : Session := { u with candidates := completer s.line.text }
  have hpress : u.press .tab = (.more, (v.continueCycle .tab).2) :=
    press_of_none (h.complete_tab hsome)
  have hedit := v.edit_continueCycle_tab
  have hdisplay := v.display_continueCycle_tab
  have hadvance : v.cycle.advance v.candidates.length =
      .after (completer s.line.text).length (p + 1) := by
    rw [← CompletionCycle.advance_after, ← h.cycle_eq]
  have hcycling : Cycling s completer (p + 1) (v.continueCycle .tab).2 :=
    ⟨(congrArg SessionEdit.line hedit).trans h.line_eq,
      (congrArg SessionEdit.completer hedit).trans h.completer_eq,
      (congrArg SessionEdit.cycle hedit).trans hadvance,
      fun _ => congrArg SessionEdit.candidates hedit⟩
  rw [hpress]
  refine ⟨rfl, hcycling, hdisplay.trans ?_⟩
  rw [hadvance, hcycling.shownLine_eq]
  simp only [CompletionCycle.after, Option.some.injEq]
  rfl

/-- The escape key goes back to the line. -/
theorem press_escape (hp : p ≠ 0) :
    (u.press .escape).1 = .more ∧ (u.press .escape).2.line = s.line ∧
      (u.press .escape).2.cycle = .idle ∧
      (u.press .escape).2.display = u.display.draw s.line .all true := by
  have hcomplete : u.complete .escape = (none, { u with cycle := .idle }.refresh .all) :=
    complete_of_active (h.isActive hp) .escape
  rw [press_of_none hcomplete, ← h.line_eq]
  exact ⟨rfl, rfl, rfl, rfl⟩

/-- Any other key takes over what is shown and is then acted on as outside of the cycle. -/
theorem press_of_ne (hp : p ≠ 0) {k : Key} (htab : k ≠ .tab) (hescape : k ≠ .escape) :
    u.press k = u.accepted.press k := by
  have hcomplete : u.complete k = (some k, u.accepted) := by
    rw [complete_of_active (h.isActive hp), continueCycle_of_ne htab hescape]
    rfl
  have hidle : u.accepted.cycle = .idle := rfl
  rw [press_of_complete hcomplete, press_of_complete (complete_of_idle_of_ne hidle htab)]

end Cycling

/-- Without candidates the completion key only rings. -/
theorem press_tab_of_no_candidates (hidle : s.cycle = .idle)
    (hcompleter : s.editor.completer = some completer) (hnone : completer s.line.text = []) :
    s.press .tab = (.more, { s with candidates := [] }.ring) := by
  refine press_of_none ?_
  rw [complete_tab_of_idle hidle, hcompleter]
  dsimp only
  rw [hnone]
  rfl

/-! ### Any number of presses -/

/-- **Any number of presses.** As long as no other key is read, the cycle stands where the number of
presses says. -/
theorem cycling_driven (hidle : s.cycle = .idle) (hcompleter : s.editor.completer = some completer)
    (hsome : completer s.line.text ≠ [])
    (htabs : ∀ m < n, ∀ k ∈ (s.driven calls m).key? (calls m), k = .tab) :
    Cycling s completer (s.presses calls n) (s.driven calls n) := by
  induction n with
  | zero => exact ⟨rfl, hcompleter, hidle, fun hzero => absurd rfl hzero⟩
  | succ n ih =>
    have hcycling := ih fun m hm => htabs m (Nat.lt_succ_of_lt hm)
    have hlast := htabs n (Nat.lt_succ_self n)
    rw [driven, presses]
    cases hread : (s.driven calls n).key? (calls n) with
    | none =>
      rcases edit_called_of_key?_eq_none hread with hedit | ⟨hedit, -⟩
      · exact hcycling.of_edit hedit
      · exact hcycling.of_edit hedit
    | some k =>
      obtain rfl := hlast k hread
      cases hcall : calls n with
      | feed =>
        rw [hcall] at hread
        rw [called, feed_of_key? hread]
        exact ((hcycling.of_edit (v := (s.driven calls n).afterReading) rfl).press_tab hsome).2.1
      | _ =>
        rw [hcall] at hread
        exact absurd hread (by simp [key?])

/-- **The cycle through the candidates.** Let a session outside of a cycle have a completer, and let
its calls read no key but the completion key. If there are candidates, then the line is as it was,
and what is shown can be told from the number of presses; one more press shows the next candidate,
with the bell if it is the line that is shown again. Once the key has been pressed, the escape key
draws the line as it was and leaves the cycle, and any other key does what it does in a session
outside of a cycle whose line is the one that is shown, with this line drawn. Without candidates the
completion key only rings. -/
theorem cycle_of_tabs (hidle : s.cycle = .idle) (hcompleter : s.editor.completer = some completer)
    (htabs : ∀ m < n, ∀ k ∈ (s.driven calls m).key? (calls m), k = .tab) :
    (completer s.line.text ≠ [] →
      (s.driven calls n).line = s.line ∧
      (s.driven calls n).shownLine =
        s.line.cycled (completer s.line.text) (s.presses calls n) ∧
      ((s.driven calls n).key? .feed = some .tab →
        (s.driven calls n).feed.1 = .more ∧
        (s.driven calls n).feed.2.line = s.line ∧
        (s.driven calls n).feed.2.cycle.isActive = true ∧
        (s.driven calls n).feed.2.display =
          (if s.presses calls n % ((completer s.line.text).length + 1) =
              (completer s.line.text).length then
            (s.driven calls n).display.write ['\x07'] else (s.driven calls n).display).draw
          (s.line.cycled (completer s.line.text) (s.presses calls n + 1)) .all true) ∧
      (s.presses calls n ≠ 0 → (s.driven calls n).key? .feed = some .escape →
        (s.driven calls n).feed.1 = .more ∧
        (s.driven calls n).feed.2.line = s.line ∧
        (s.driven calls n).feed.2.cycle = .idle ∧
        (s.driven calls n).feed.2.display = (s.driven calls n).display.draw s.line .all true) ∧
      (s.presses calls n ≠ 0 → ∀ k, k ≠ .tab → k ≠ .escape →
        (s.driven calls n).key? .feed = some k →
        (s.driven calls n).feed = (s.driven calls n).accepted.feed ∧
        (s.driven calls n).accepted.line =
          s.line.cycled (completer s.line.text) (s.presses calls n) ∧
        (s.driven calls n).accepted.cycle = .idle ∧
        (s.driven calls n).accepted.historyView = (s.driven calls n).historyView ∧
        (s.driven calls n).accepted.display = (s.driven calls n).display.draw
          (s.line.cycled (completer s.line.text) (s.presses calls n)) .all true)) ∧
    (completer s.line.text = [] → s.key? .feed = some .tab →
      s.feed.1 = .more ∧ s.feed.2.line = s.line ∧ s.feed.2.cycle = .idle ∧
        s.feed.2.display = s.display.write ['\x07']) := by
  refine ⟨fun hsome => ?_, fun hnone hread => ?_⟩
  · have hcycling := cycling_driven hidle hcompleter hsome htabs
    revert hcycling
    generalize s.driven calls n = u
    generalize s.presses calls n = p
    intro hcycling
    have hread : Cycling s completer p u.afterReading := hcycling.of_edit rfl
    have hshown := hcycling.shownLine_eq
    refine ⟨hcycling.line_eq, hshown, fun hkey => ?_, fun hp hkey => ?_,
      fun hp k htab hescape hkey => ?_⟩
    · obtain ⟨hmore, hnext, hdisplay⟩ := hread.press_tab hsome
      rw [feed_of_key? hkey]
      exact ⟨hmore, hnext.line_eq, hnext.isActive (Nat.succ_ne_zero p), hdisplay⟩
    · rw [feed_of_key? hkey]
      exact hread.press_escape hp
    · have haccepted : u.accepted.key? .feed = some k := hkey
      refine ⟨?_, hshown, rfl, rfl, ?_⟩
      · rw [feed_of_key? hkey, feed_of_key? haccepted]
        exact hread.press_of_ne hp htab hescape
      · rw [← hshown]
        rfl
  · have hpress := press_tab_of_no_candidates (s := s.afterReading) hidle hcompleter hnone
    rw [feed_of_key? hread, hpress]
    exact ⟨rfl, rfl, hidle, rfl⟩

/-- An editor for lines of two bytes with a source of completions. -/
def completingEditor (completer : Completer) : Editor :=
  { Editor.ofConfig ⟨false, false, 2⟩ (.ofColumns 80) with completer := some completer }

/-- A candidate that continues the line, and one that does not fit. -/
def twoCandidates : Completer := fun t => [t ++ ['a', 'b', 'c'], ['語']]

/-- The third press shows the empty line again, with the bell. A character after the fourth one is
typed behind the first candidate, which fills the line, and the escape key after the second one
goes back. Without candidates there is only the bell. -/
theorem cycle_of_tabs_twoCandidates : ∃ s t u,
    start (completingEditor twoCandidates) .ofPipe
      (.ofBytes [0x09, 0x09, 0x09, 0x09, 0x78] true false none) (.fresh none) ['>'] = .ok s ∧
    start (completingEditor twoCandidates) .ofPipe
      (.ofBytes [0x09, 0x09, 0x1B] true false none) (.fresh none) ['>'] = .ok t ∧
    start (completingEditor fun _ => []) .ofPipe
      (.ofBytes [0x09] true false none) (.fresh none) ['>'] = .ok u ∧
    (s.driven (fun _ => .feed) 2).feed.2.display =
      ((s.driven (fun _ => .feed) 2).display.write ['\x07']).draw s.line .all true ∧
    (s.driven (fun _ => .feed) 4).feed = (s.driven (fun _ => .feed) 4).accepted.feed ∧
    (s.driven (fun _ => .feed) 4).accepted.line = ⟨['b', 'a'], [], 2⟩ ∧
    (t.driven (fun _ => .feed) 2).feed.2.line = t.line ∧
    u.feed.2.display = u.display.write ['\x07'] := by
  obtain ⟨s, hstart, hidle, hcompleter, hsome, htabs, hthird, hother, htwo, hfour, hline⟩ :
      ∃ s, start (completingEditor twoCandidates) .ofPipe
        (.ofBytes [0x09, 0x09, 0x09, 0x09, 0x78] true false none) (.fresh none) ['>'] = .ok s ∧
      s.cycle = .idle ∧ s.editor.completer = some twoCandidates ∧
      twoCandidates s.line.text ≠ [] ∧
      (∀ m < 4, ∀ k ∈ (s.driven (fun _ => .feed) m).key? .feed, k = .tab) ∧
      (s.driven (fun _ => .feed) 2).key? .feed = some .tab ∧
      (s.driven (fun _ => .feed) 4).key? .feed = some (.char 'x') ∧
      s.presses (fun _ => .feed) 2 = 2 ∧ s.presses (fun _ => .feed) 4 = 4 ∧ s.line = .empty 2 :=
    ⟨_, rfl, rfl, rfl, by decide +kernel, by decide +kernel, by decide +kernel, by decide +kernel,
      by decide +kernel, by decide +kernel, rfl⟩
  obtain ⟨t, hstart', hidle', hcompleter', hsome', htabs', hescape, hpresses'⟩ :
      ∃ t, start (completingEditor twoCandidates) .ofPipe
        (.ofBytes [0x09, 0x09, 0x1B] true false none) (.fresh none) ['>'] = .ok t ∧
      t.cycle = .idle ∧ t.editor.completer = some twoCandidates ∧
      twoCandidates t.line.text ≠ [] ∧
      (∀ m < 2, ∀ k ∈ (t.driven (fun _ => .feed) m).key? .feed, k = .tab) ∧
      (t.driven (fun _ => .feed) 2).key? .feed = some .escape ∧
      t.presses (fun _ => .feed) 2 ≠ 0 :=
    ⟨_, rfl, rfl, rfl, by decide +kernel, by decide +kernel, by decide +kernel,
      by decide +kernel⟩
  obtain ⟨u, hstart'', hidle'', hcompleter'', htab⟩ :
      ∃ u, start (completingEditor fun _ => []) .ofPipe
        (.ofBytes [0x09] true false none) (.fresh none) ['>'] = .ok u ∧
      u.cycle = .idle ∧ u.editor.completer = some (fun _ => []) ∧ u.key? .feed = some .tab :=
    ⟨_, rfl, rfl, rfl, by decide +kernel⟩
  have hsecond : ∀ m < 2, ∀ k ∈ (s.driven (fun _ => .feed) m).key? .feed, k = .tab :=
    fun m hm => htabs m (Nat.lt_trans hm (by decide))
  obtain ⟨-, -, hpress, -, -⟩ := (cycle_of_tabs hidle hcompleter hsecond).1 hsome
  obtain ⟨-, -, -, -, hkey⟩ := (cycle_of_tabs hidle hcompleter htabs).1 hsome
  obtain ⟨-, -, -, hback, -⟩ := (cycle_of_tabs hidle' hcompleter' htabs').1 hsome'
  have hnone := (@cycle_of_tabs u (fun _ => .feed) 0 _ hidle'' hcompleter''
    fun m hm => absurd hm (Nat.not_lt_zero m)).2 rfl htab
  obtain ⟨-, -, -, hdisplay⟩ := hpress hthird
  obtain ⟨hfeed, haccepted, -⟩ :=
    hkey (by rw [hfour]; decide) (.char 'x') (by decide) (by decide) hother
  rw [htwo, hline] at hdisplay
  rw [hfour, hline] at haccepted
  refine ⟨s, t, u, hstart, hstart', hstart'', ?_, hfeed, haccepted.trans (by decide),
    (hback hpresses' hescape).2.1, hnone.2.2.2⟩
  rw [hline]
  exact hdisplay

end Session

end Typeline
