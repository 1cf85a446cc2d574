import Typeline.Proofs.Session.Likeness

/-!
# Sessions side by side

Two sessions whose lines, candidates and histories are alike go the same way when they read keys
that are alike: they come to results that are alike, and are again alike. What they draw makes no
difference to that. Their terminals, on the other hand, may be related by anything that is kept by
everything a session does to its terminal.

The only key after which two lines need not be alike is the one that enters them. It moves the
cursor to the end of a line that takes several rows and leaves it alone on a single row, so that the
texts are alike, but the places of the cursors only if both sessions draw the same way.

## Main definitions

* `Session.Beside`, `Session.Paired` : sessions that are alike, the latter also in their cursors.
* `Session.Outcomes` : what a key has led to in two sessions that are alike.

## Main results

* `Session.Paired.press` : keys that are alike.
* `Session.Paired.driven` : any calls that read keys alike.
-/

namespace Typeline

namespace Session

variable {r : Likeness}

/-- Sessions that are alike but perhaps for the places of the cursors, and whose terminals are
related. -/
structure Beside (D : DisplayRelation r) (s t : Session) : Prop where
  edit : r.Edits s.edit t.edit
  display : D.Holds s.display t.display

/-- Sessions that are alike, and whose terminals are related. -/
structure Paired (D : DisplayRelation r) (s t : Session) : Prop extends Beside D s t where
  line : r.Lines s.line t.line

/-- Both sessions let a line take several rows, or neither does. -/
def SameRows (s t : Session) : Prop := t.editor.config.multiline = s.editor.config.multiline

theorem sameRows_congr {s t u v : Session} (hs : u.settings = s.settings)
    (ht : v.settings = t.settings) : SameRows u v = SameRows s t := by
  have hconfig : u.editor.config = s.editor.config := congrArg SessionSettings.config hs
  have hconfig' : v.editor.config = t.editor.config := congrArg SessionSettings.config ht
  rw [SameRows, SameRows, hconfig, hconfig']

/-- What a key has led to in two sessions: results alike, and sessions alike. Once the edit is
over, the cursors need to be in the same place only if that is said to hold. -/
structure Outcomes (D : DisplayRelation r) (aligned : Prop) (x y : FeedResult × Session) :
    Prop where
  result : r.Results x.1 y.1
  beside : Beside D x.2 y.2
  line : (∀ e, x.1 ≠ .done e) ∨ aligned → r.Lines x.2.line y.2.line

/-- What completion has left to do in two sessions: nothing, or to act on keys alike outside of a
cycle. -/
structure Completed (D : DisplayRelation r) (x y : Option Key × Session) : Prop where
  keys : Option.Rel r.Keys x.1 y.1
  paired : Paired D x.2 y.2
  idle : x.1 ≠ none → x.2.cycle = .idle

variable {D : DisplayRelation r} {s t : Session}

theorem Outcomes.of_paired {aligned : Prop} {x y : FeedResult × Session}
    (hresult : r.Results x.1 y.1) (h : Paired D x.2 y.2) : Outcomes D aligned x y :=
  ⟨hresult, h.toBeside, fun _ => h.line⟩

namespace Paired

variable (h : Paired D s t)

include h

/-! ### What two sessions do to their terminals -/

/-- The lines that are drawn are alike. -/
theorem shownLine : r.Lines s.shownLine t.shownLine := by
  have hcandidate : Option.Rel r.Texts (s.cycle.index.bind (s.candidates[·]?))
      (t.cycle.index.bind (t.candidates[·]?)) := by
    rw [show t.cycle = s.cycle from h.edit.cycle_eq]
    cases s.cycle.index with
    | none => exact .none
    | some i => exact rel_getElem?_of_forall₂ h.edit.candidates i
  unfold Session.shownLine
  revert hcandidate
  generalize s.cycle.index.bind (s.candidates[·]?) = candidate
  generalize t.cycle.index.bind (t.candidates[·]?) = candidate'
  intro hcandidate
  cases hcandidate with
  | none => exact h.line
  | some htexts =>
    dsimp only
    rw [r.capacity_eq h.line]
    exact Likeness.lines_setText (r.lines_empty _) htexts

theorem refreshWith (mode : RefreshMode) (hints : Bool) :
    Paired D (s.refreshWith mode hints) (t.refreshWith mode hints) :=
  ⟨⟨h.edit, D.draw mode hints h.display h.shownLine⟩, h.line⟩

theorem refresh (mode : RefreshMode) : Paired D (s.refresh mode) (t.refresh mode) :=
  h.refreshWith mode true

theorem write (u : Text) : Paired D (s.write u) (t.write u) :=
  ⟨⟨h.edit, D.write u h.display⟩, h.line⟩

theorem cleared : Paired D s.cleared t.cleared := ⟨⟨h.edit, D.clear h.display⟩, h.line⟩

theorem closeSlot : Paired D s.closeSlot t.closeSlot :=
  ⟨⟨{ h.edit with history := h.edit.history.endLiveSlot }, h.display⟩, h.line⟩

/-! ### What two sessions do to their lines -/

theorem withLine {l l' : Line} (hline : r.Lines l l') :
    Paired D { s with line := l } { t with line := l' } :=
  ⟨⟨{ h.edit with text := r.lines_text hline }, h.display⟩, hline⟩

theorem change {l l' : Option Line} (hline : Option.Rel r.Lines l l') :
    Paired D (s.change l) (t.change l') := by
  cases hline with
  | none => exact h
  | some hline => exact (h.withLine hline).refresh .all

theorem withPlace {history history' : History} (hhistory : r.Histories history history')
    {i i' : Nat} (hindex : i' = i) : Paired D { s.withHistory history with historyIndex := i }
      { t.withHistory history' with historyIndex := i' } :=
  ⟨⟨{ h.edit with history := hhistory, historyIndex_eq := hindex }, h.display⟩, h.line⟩

theorem recalled {entry entry' : Option Text} (hentry : Option.Rel r.Texts entry entry') :
    Option.Rel r.Lines (entry.map s.line.setText) (entry'.map t.line.setText) := by
  cases hentry with
  | none => exact .none
  | some htexts => exact .some (Likeness.lines_setText h.line htexts)

theorem browse (d : BrowseDirection) : Paired D (s.browse d) (t.browse d) := by
  obtain ⟨hhistory, hindex, hentry⟩ := h.edit.history.browse (r.lines_text h.line) s.historyIndex d
  rw [Session.browse, Session.browse, show t.historyIndex = s.historyIndex from
    h.edit.historyIndex_eq]
  exact (h.withPlace hhistory hindex).change (h.recalled hentry)

variable (hidle : s.cycle = .idle)

include hidle

theorem idle : t.cycle = .idle := Eq.trans h.edit.cycle_eq hidle

theorem insertChar {c d : Char} (hchars : r.Chars c d) :
    Paired D (s.insertChar c) (t.insertChar d) := by
  have hinsert := r.lines_result? h.line (.insert (r.texts_singleton hchars))
  have hedit := s.edit_insertChar c
  have hedit' := t.edit_insertChar d
  have hdisplay := display_insertChar hidle c
  have hdisplay' := display_insertChar (h.idle hidle) d
  simp only [Line.Operation.result?] at hinsert
  revert hinsert hedit hedit' hdisplay hdisplay'
  generalize s.line.insert [c] = l
  generalize t.line.insert [d] = l'
  intro hinsert hedit hedit' hdisplay hdisplay'
  have hline : (s.insertChar c).line = l.getD s.line := congrArg SessionEdit.line hedit
  have hline' : (t.insertChar d).line = l'.getD t.line := congrArg SessionEdit.line hedit'
  cases hinsert with
  | none =>
    refine ⟨⟨?_, ?_⟩, ?_⟩
    · rw [hedit, hedit']
      exact h.edit
    · rw [hdisplay, hdisplay']
      exact h.display
    · rw [hline, hline']
      exact h.line
  | some hlines =>
    refine ⟨⟨?_, ?_⟩, ?_⟩
    · rw [hedit, hedit']
      exact { h.edit with text := r.lines_text hlines }
    · rw [hdisplay, hdisplay', r.atEnd_eq h.line]
      exact D.type _ h.display hlines hchars
    · rw [hline, hline']
      exact hlines

/-- Entering lines that are alike. -/
theorem enter : Outcomes D (SameRows s t) (.done s.enter.1, s.enter.2)
    (.done t.enter.1, t.enter.2) := by
  have hline : s.enter.2.line = s.display.entered s.line := congrArg SessionEdit.line s.edit_enter
  have hline' : t.enter.2.line = t.display.entered t.line :=
    congrArg SessionEdit.line t.edit_enter
  refine ⟨?_, ⟨?_, ?_⟩, ?_⟩
  · rw [enter_fst, enter_fst]
    exact .done (.line (r.lines_text h.line))
  · rw [edit_enter, edit_enter]
    refine { h.edit with text := ?_, history := h.edit.history.endLiveSlot }
    rw [text_entered, text_entered]
    exact r.lines_text h.line
  · rw [display_enter hidle, display_enter (h.idle hidle)]
    exact D.enter h.display h.line
  · rintro (hmore | hrows)
    · exact absurd rfl (hmore _)
    · have hmove := r.lines_result? h.line (.plain .moveEnd rfl)
      simp only [hline, hline', SessionDisplay.entered]
      rw [show t.display.settings.config.multiline = s.display.settings.config.multiline from hrows]
      split
      · simp only [Line.Operation.result?] at hmove
        revert hmove
        generalize s.line.moveEnd = l
        generalize t.line.moveEnd = l'
        intro hmove
        cases hmove with
        | none => exact h.line
        | some hlines => exact hlines
      · exact h.line

/-! ### Keys -/

/-- Acting on keys that are alike. -/
theorem handled {k k' : Key} (hkeys : r.Keys k k') :
    Outcomes D (SameRows s t) (s.handled k) (t.handled k') := by
  have hchange (op : Line.Operation) (hop : op.argument = []) :
      Outcomes D (SameRows s t) (.more, s.change (op.result? s.line))
        (.more, t.change (op.result? t.line)) :=
    .of_paired .more (h.change (r.lines_result? h.line (.plain op hop)))
  cases hkeys with
  | char hchars => exact .of_paired .more (h.insertChar hidle hchars)
  | @plain k hplain =>
    cases k with
    | char c => exact absurd rfl (hplain c)
    | enter => exact h.enter hidle
    | interrupt => exact .of_paired (.done .interrupted) h.closeSlot
    | deleteOrEnd =>
      rw [Session.handled, Session.handled, act, act, r.isEmpty_eq h.line]
      split
      · exact .of_paired (.done .ended) h.closeSlot
      · exact hchange .delete rfl
    | delete => exact hchange .delete rfl
    | backspace => exact hchange .backspace rfl
    | transpose => exact hchange .transpose rfl
    | left => exact hchange .left rfl
    | right => exact hchange .right rfl
    | home => exact hchange .home rfl
    | lineEnd => exact hchange .moveEnd rfl
    | killLine => exact hchange .clear rfl
    | killToEnd => exact hchange .killToEnd rfl
    | deleteWord => exact hchange .deleteWord rfl
    | up => exact .of_paired .more (h.browse .older)
    | down => exact .of_paired .more (h.browse .newer)
    | clearScreen => exact .of_paired .more (h.cleared.refresh .all)
    | tab | escape | ignored => exact .of_paired .more h

/-! ### Completion -/

omit hidle

theorem withCycle (cycle : CompletionCycle) : Paired D { s with cycle } { t with cycle } :=
  ⟨⟨{ h.edit with cycle_eq := rfl }, h.display⟩, h.line⟩

theorem withCandidates {candidates candidates' : List Text}
    (hcandidates : List.Forall₂ r.Texts candidates candidates') :
    Paired D { s with candidates } { t with candidates := candidates' } :=
  ⟨⟨{ h.edit with candidates := hcandidates }, h.display⟩, h.line⟩

/-- Going on in the cycle, or leaving it. -/
theorem continueCycle {k k' : Key} (hkeys : r.Keys k k') :
    Completed D (s.continueCycle k) (t.continueCycle k') := by
  have hcycle : t.cycle = s.cycle := h.edit.cycle_eq
  have hcandidates : List.Forall₂ r.Texts s.candidates t.candidates := h.edit.candidates
  have hlength : t.candidates.length = s.candidates.length := hcandidates.length_eq.symm
  have hleave (hk : k ≠ .tab ∧ k ≠ .escape) (hk' : k' ≠ .tab ∧ k' ≠ .escape) :
      Completed D (s.continueCycle k) (t.continueCycle k') := by
    rw [continueCycle_of_ne hk.1 hk.2, continueCycle_of_ne hk'.1 hk'.2]
    have haccepted := ((h.withLine h.shownLine).withCandidates .nil).withCycle .idle
    exact ⟨.some hkeys, haccepted.refresh .all, fun _ => rfl⟩
  cases hkeys with
  | char hchars => exact hleave (by simp) (by simp)
  | @plain k hplain =>
    by_cases htab : k = .tab
    · subst htab
      have hadvanced := h.withCycle (s.cycle.advance s.candidates.length)
      refine ⟨.none, ?_, fun hback => absurd rfl hback⟩
      rw [Session.continueCycle, Session.continueCycle, hcycle, hlength]
      dsimp only
      split
      · exact (hadvanced.write _).refresh .all
      · exact hadvanced.refresh .all
    · by_cases hescape : k = .escape
      · subst hescape
        refine ⟨.none, ?_, fun hback => absurd rfl hback⟩
        exact (h.withCycle .idle).refresh .all
      · exact hleave ⟨htab, hescape⟩ ⟨htab, hescape⟩

theorem complete {k k' : Key} (hkeys : r.Keys k k') :
    Completed D (s.complete k) (t.complete k') := by
  have hcycle : t.cycle = s.cycle := h.edit.cycle_eq
  by_cases hactive : s.cycle.isActive = true
  · rw [complete_of_active hactive, complete_of_active (hcycle ▸ hactive)]
    exact h.continueCycle hkeys
  · have hidle := idle_of_not_isActive hactive
    have hleave (hk : k ≠ .tab) (hk' : k' ≠ .tab) :
        Completed D (s.complete k) (t.complete k') := by
      rw [complete_of_idle_of_ne hidle hk, complete_of_idle_of_ne (h.idle hidle) hk']
      exact ⟨.some hkeys, h, fun _ => hidle⟩
    cases hkeys with
    | char hchars => exact hleave (by simp) (by simp)
    | @plain k hplain =>
      by_cases htab : k = .tab
      · subst htab
        rw [complete_tab_of_idle hidle, complete_tab_of_idle (h.idle hidle)]
        have hcompleter : Option.Rel r.Completers s.editor.completer t.editor.completer :=
          h.edit.completer
        revert hcompleter
        generalize s.editor.completer = completer
        generalize t.editor.completer = completer'
        intro hcompleter
        cases hcompleter with
        | none => exact ⟨.some (.plain hplain), h, fun _ => hidle⟩
        | @some f g hfound =>
          have hcandidates : List.Forall₂ r.Texts (f s.line.text) (g t.line.text) :=
            hfound _ _ (r.lines_text h.line)
          have hpaired := h.withCandidates hcandidates
          dsimp only
          rw [isEmpty_eq_of_forall₂ hcandidates]
          split
          · exact ⟨.none, hpaired.write _, fun hback => absurd rfl hback⟩
          · exact hpaired.continueCycle (.plain hplain)
      · exact hleave htab htab

/-! ### Reading and acting on keys -/

/-- **Keys that are alike.** -/
theorem press {k k' : Key} (hkeys : r.Keys k k') :
    Outcomes D (SameRows s t) (s.press k) (t.press k') := by
  obtain ⟨hback, hpaired, hidle⟩ := h.complete hkeys
  have hsettings := (chain_complete True True s k).1.settings_eq
  have hsettings' := (chain_complete True True t k').1.settings_eq
  cases hcompleted : s.complete k with
  | mk kept u =>
    cases hcompleted' : t.complete k' with
    | mk kept' u' =>
      rw [hcompleted, hcompleted'] at hback hpaired
      rw [hcompleted] at hidle hsettings
      rw [hcompleted'] at hsettings'
      cases hback with
      | none =>
        rw [press_of_none hcompleted, press_of_none hcompleted']
        exact .of_paired .more hpaired
      | some hkept =>
        rw [press_of_complete hcompleted, press_of_complete hcompleted']
        rw [← sameRows_congr hsettings hsettings']
        exact hpaired.handled (hidle (by simp)) hkept

theorem respond {x y : KeyReading} (hreadings : r.Readings x y) :
    Outcomes D (SameRows s t) (s.respond x) (t.respond y) := by
  cases hreadings with
  | key hkeys => exact h.press hkeys
  | silent silence =>
    cases silence with
    | notReady => exact .of_paired .more h
    | ended => exact .of_paired (.done .ended) h.closeSlot
    | failed => exact .of_paired (.error _) h

/-- **Reading keys that are alike, and acting on them.** -/
theorem feed (hs : s.isTerminal = true) (ht : t.isTerminal = true)
    (hreadings : r.Readings s.reading t.reading) :
    Outcomes D (SameRows s t) s.feed t.feed := by
  obtain ⟨hresult, hbeside, hline⟩ := h.respond hreadings
  rw [feed_eq_respond hs, feed_eq_respond ht]
  exact ⟨hresult, ⟨hbeside.edit, hbeside.display⟩, hline⟩

/-! ### Calls -/

theorem hide (hs : s.isTerminal = true) (ht : t.isTerminal = true) : Paired D s.hide t.hide := by
  rw [hide_of_isTerminal hs, hide_of_isTerminal ht]
  exact h.refresh .clean

theorem reveal (hs : s.isTerminal = true) (ht : t.isTerminal = true) :
    Paired D s.reveal t.reveal := by
  rw [reveal_of_isTerminal hs, reveal_of_isTerminal ht]
  exact h.refresh .write

theorem printAbove (hs : s.isTerminal = true) (ht : t.isTerminal = true) (u : Text) :
    Paired D (s.printAbove u) (t.printAbove u) := by
  have hhidden (v : Session) : (v.hide.write (linesAbove u)).isTerminal = v.isTerminal :=
    congrArg SessionSettings.isTerminal v.settings_hide
  exact ((h.hide hs ht).write _).reveal ((hhidden s).trans hs) ((hhidden t).trans ht)

/-- **The same call**, or more input in both sessions. A key that is read leaves the lines alike, as
long as it does not end the edit or both lines are shown the same way. -/
theorem called (hs : s.isTerminal = true) (ht : t.isTerminal = true) {c c' : SessionCall}
    (hcalls : c.Matches c') (hreadings : c = .feed → r.Readings s.reading t.reading)
    (hrows : ¬s.Ends c ∨ SameRows s t) : Paired D (s.called c) (t.called c') := by
  cases hcalls with
  | push more more' => exact ⟨⟨h.edit, h.display⟩, h.line⟩
  | same c =>
    cases c with
    | hide => exact h.hide hs ht
    | reveal => exact h.reveal hs ht
    | printAbove u => exact h.printAbove hs ht u
    | push more => exact ⟨⟨h.edit, h.display⟩, h.line⟩
    | feed =>
      obtain ⟨-, hbeside, hline⟩ := h.feed hs ht (hreadings rfl)
      exact ⟨hbeside, hline (hrows.imp (fun hends e hdone => hends ⟨rfl, e, hdone⟩) id)⟩

/-- **The same calls**, but for more input, that read keys alike. The sessions remain alike until
the edit is over, and if both lines are shown the same way also afterwards. -/
theorem driven (hs : s.isTerminal = true) (ht : t.isTerminal = true)
    {calls calls' : Nat → SessionCall} {n : Nat}
    (hcalls : ∀ m < n, (calls m).Matches (calls' m))
    (hreadings : ∀ m < n, calls m = .feed →
      r.Readings (s.driven calls m).reading (t.driven calls' m).reading)
    (hrows : s.Ongoing calls n ∨ SameRows s t) :
    Paired D (s.driven calls n) (t.driven calls' n) := by
  induction n with
  | zero => exact h
  | succ n ih =>
    have hlast := Nat.lt_succ_self n
    have hpaired := ih (fun m hm => hcalls m (hm.trans hlast))
      (fun m hm => hreadings m (hm.trans hlast)) (hrows.imp (·.mono hlast.le) id)
    refine hpaired.called (isTerminal_driven hs calls n) (isTerminal_driven ht calls' n)
      (hcalls n hlast) (hreadings n hlast) (hrows.imp (· n hlast) fun hrows => ?_)
    exact (sameRows_congr (s.settings_driven calls n) (t.settings_driven calls' n)).mpr hrows

end Paired

/-! ### The end and the start -/

theorem finish_of_isTerminal (hs : s.isTerminal = true) :
    s.finish =
      if s.finished then s else ({ s with finished := true }.closeSlot).write ['\n'] := by
  rw [Session.finish]
  split
  · rfl
  · exact if_pos hs

theorem Beside.finish (h : Beside D s t) (hs : s.isTerminal = true) (ht : t.isTerminal = true) :
    Beside D s.finish t.finish := by
  rw [finish_of_isTerminal hs, finish_of_isTerminal ht,
    show t.finished = s.finished from h.edit.finished_eq]
  split
  · exact h
  · exact ⟨{ h.edit with history := h.edit.history.endLiveSlot, finished_eq := rfl },
      D.write _ h.display⟩

/-- Sessions that start on terminals, with histories and completers that are alike. -/
theorem Paired.of_start {editor editor' : Editor} {mode mode' : RawMode} {input input' : Input}
    {output output' : Output} {prompt prompt' : Text}
    (hstart : start editor mode input output prompt = .ok s) (hs : s.isTerminal = true)
    (hstart' : start editor' mode' input' output' prompt' = .ok t) (ht : t.isTerminal = true)
    (hcapacity : editor'.config.capacity = editor.config.capacity)
    (hcompleter : Option.Rel r.Completers editor.completer editor'.completer)
    (hhistory : r.Histories editor.history editor'.history)
    (hdisplay : D.Holds s.display t.display) : Paired D s t := by
  have hline : r.Lines (.empty editor.config.capacity) (.empty editor'.config.capacity) := by
    rw [hcapacity]
    exact r.lines_empty _
  obtain rfl := start_eq_of_isTerminal hstart hs
  obtain rfl := start_eq_of_isTerminal hstart' ht
  have hslot := hhistory.beginLiveSlot
  exact ⟨⟨⟨r.texts_nil, rfl, .nil, hcompleter, hslot, rfl, rfl⟩, hdisplay⟩, hline⟩

end Session

end Typeline
