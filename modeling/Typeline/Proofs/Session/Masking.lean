import Typeline.Proofs.Edit.Masked
import Typeline.Proofs.Session.Pairs
import Typeline.Proofs.Terminal.Reports

/-!
# What mask mode reveals

In mask mode nothing that is written to the terminal depends on what a line says, but for the number
of its characters, the number of their bytes, and which of them are spaces: these decide what an
operation does to the line. Two masked sessions over an alphabet whose keys and histories agree in
so much write the same to their terminals, at the start, after each key and at the end.

## Main definitions

* `DisplayRelation.masked` : terminals on which the same has been written in mask mode.

## Main results

* `Session.output_driven_of_masked` : keys and histories of the same shape.
-/

namespace Typeline

namespace SessionDisplay

variable {r : CharLikeness} {d : SessionDisplay} {l l' : Line}

private theorem settings_type (d : SessionDisplay) (l : Line) (atEnd : Bool) (c : Char) :
    (d.type l atEnd c).settings = d.settings := by
  rw [type]
  split <;> rfl

private theorem settings_enter (d : SessionDisplay) (l : Line) :
    (d.enter l).settings = d.settings := by
  simp only [enter]
  cases l.moveEnd with
  | none => split <;> split <;> rfl
  | some line => split <;> split <;> rfl

variable (hmasked : d.settings.config.masked = true) (hhinter : d.settings.hinter = none)
  (h : r.Lines l l')

include hmasked hhinter h

theorem draw_eq_of_masked (mode : RefreshMode) (hints : Bool) :
    d.draw l' mode hints = d.draw l mode hints := by
  have hview : (d.settings.view l hints).hinter = none := by
    rw [SessionSettings.view, hhinter, ite_self]
  have hdraw := LineView.draw_eq_of_masked (v := d.settings.view l hints) hmasked h hview
    d.drawState mode
  have hline : { d.settings.view l hints with line := l' } = d.settings.view l' hints := rfl
  rw [hline] at hdraw
  simp only [draw, hdraw]

private theorem type_eq_of_masked (atEnd : Bool) {c c' : Char} (hchars : r.Chars c c') :
    d.type l' atEnd c' = d.type l atEnd c := by
  simp only [type, hmasked, h.backwardLength_eq, r.utf8Size_eq hchars, h.text.contentWidth_eq,
    if_true, draw_eq_of_masked hmasked hhinter h]

/-- Without hints, entering a line redraws it at most once, with the cursor at its end. -/
theorem enter_eq_of_masked : d.enter l' = d.enter l := by
  have hmove := h.result? (.plain .moveEnd rfl)
  simp only [Line.Operation.result?] at hmove
  simp only [enter, hhinter, Option.isSome_none, Bool.false_eq_true, if_false]
  revert hmove
  generalize l.moveEnd = moved
  generalize l'.moveEnd = moved'
  intro hmove
  cases hmove with
  | none => rfl
  | some hlines =>
    dsimp only
    rw [draw_eq_of_masked hmasked hhinter hlines]

end SessionDisplay

/-- The same has been written to two terminals, in mask mode and without hints. -/
def DisplayRelation.masked (r : CharLikeness) : DisplayRelation r.likeness where
  Holds d d' := d' = d ∧ d.settings.config.masked = true ∧ d.settings.hinter = none
  write t := fun ⟨hsame, hsettings⟩ => ⟨by rw [hsame], hsettings⟩
  clear := fun ⟨hsame, hsettings⟩ => ⟨by rw [hsame], hsettings⟩
  draw mode hints := by
    rintro ⟨rfl, hmasked, hhinter⟩ hlines
    exact ⟨SessionDisplay.draw_eq_of_masked hmasked hhinter hlines mode hints, hmasked, hhinter⟩
  type {d d' l l' c c'} atEnd := by
    rintro ⟨rfl, hmasked, hhinter⟩ hlines hchars
    have hsettings := SessionDisplay.settings_type d' l atEnd c
    exact ⟨SessionDisplay.type_eq_of_masked hmasked hhinter hlines atEnd hchars,
      by rw [hsettings]; exact hmasked, by rw [hsettings]; exact hhinter⟩
  enter {d d' l l'} := by
    rintro ⟨rfl, hmasked, hhinter⟩ hlines
    have hsettings := SessionDisplay.settings_enter d' l
    exact ⟨SessionDisplay.enter_eq_of_masked hmasked hhinter hlines,
      by rw [hsettings]; exact hmasked, by rw [hsettings]; exact hhinter⟩

namespace Session

variable {s t : Session} {calls calls' : Nat → SessionCall} {n : Nat} {editor : Editor}
  {history : History} {mode mode' : RawMode} {input : Input} {queue : List Reading}
  {output : Output} {prompt : Text}

/-- Sessions with the same settings, of which the terminal reports the same width, show the same at
their start. -/
theorem display_start (hstart : start editor mode input output prompt = .ok s)
    (hs : s.isTerminal = true)
    (hstart' : start { editor with history } mode' { input with queue } output prompt = .ok t)
    (ht : t.isTerminal = true) {reports : List Reading}
    (hreports : input.queue = reports ++ s.input.queue)
    (hreports' : queue = reports ++ t.input.queue) : t.display = s.display := by
  obtain rfl := start_eq_of_isTerminal hstart hs
  obtain rfl := start_eq_of_isTerminal hstart' ht
  have hinput : input =
      { input with queue := reports ++ (findColumns editor.terminal input output).2.1.queue } :=
    congrArg (fun queue => { input with queue }) hreports
  have hinput' : ({ input with queue } : Input) = { input with queue := reports ++
      (findColumns editor.terminal { input with queue } output).2.1.queue } :=
    congrArg (fun queue => { input with queue }) hreports'
  obtain ⟨hcolumns, houtput⟩ := findColumns_of_reports input output editor.terminal
    (by rw [← hinput]) (by rw [← hinput'])
  rw [← hinput, ← hinput'] at hcolumns houtput
  simp only [display, settings, unopened, hcolumns, houtput]

/-- **Mask mode reveals no more than the shape of the line.** Let two sessions start in mask mode
with the same settings, without completions and hints, and let the terminal report the same width.
If the histories and the keys that are read agree, character by character, in the number of bytes
and in being a space or not, then the same is written to both terminals by the same calls, and also
when the sessions are finished. -/
theorem output_driven_of_masked {A : Alphabet}
    (hstart : start editor mode input output prompt = .ok s) (hs : s.isTerminal = true)
    (hstart' : start { editor with history } mode' { input with queue } output prompt = .ok t)
    (ht : t.isTerminal = true) {reports : List Reading}
    (hreports : input.queue = reports ++ s.input.queue)
    (hreports' : queue = reports ++ t.input.queue)
    (hmasked : editor.config.masked = true) (hcompleter : editor.completer = none)
    (hhinter : editor.hinter = none)
    (hhistory : (CharLikeness.shape A).likeness.Histories editor.history history)
    (hcalls : ∀ m < n, (calls m).Matches (calls' m))
    (hreadings : ∀ m < n, calls m = .feed → (CharLikeness.shape A).likeness.Readings
      (s.driven calls m).reading (t.driven calls' m).reading) :
    (t.driven calls' n).output = (s.driven calls n).output ∧
      (t.driven calls' n).finish.output = (s.driven calls n).finish.output := by
  obtain ⟨-, hconfig, hhinter'⟩ := settings_start hstart hs
  obtain ⟨-, hconfig', -⟩ := settings_start hstart' ht
  have hrows : SameRows s t :=
    congrArg EditorConfig.multiline (hconfig'.trans hconfig.symm)
  have hdisplay : (DisplayRelation.masked (.shape A)).Holds s.display t.display :=
    ⟨display_start hstart hs hstart' ht hreports hreports',
      (congrArg EditorConfig.masked hconfig).trans hmasked, hhinter'.trans hhinter⟩
  have hstarted : Paired (.masked (.shape A)) s t := by
    refine .of_start hstart hs hstart' ht rfl ?_ hhistory hdisplay
    rw [hcompleter]
    exact .none
  have hpaired := hstarted.driven hs ht hcalls hreadings (Or.inr hrows)
  have hfinished := hpaired.toBeside.finish (isTerminal_driven hs calls n)
    (isTerminal_driven ht calls' n)
  exact ⟨congrArg SessionDisplay.output hpaired.display.1,
    congrArg SessionDisplay.output hfinished.display.1⟩

/-- An editor that masks and wraps lines of five bytes, and asks the terminal for its width. -/
def shortMaskingEditor (history : History) : Editor :=
  ⟨⟨true, true, 5⟩, ⟨true, none, none⟩, none, none, history⟩

/-- What a terminal of three columns reports of its cursor, at the start of a row and at its end. -/
def threeColumns : List Reading := (Utf8.encode "\x1B[1;1R\x1B[1;3R".toList).map .byte

/-- An input on which such a terminal answers, and then a text is typed, the last word is deleted,
an entry is recalled and cut, and its last character is deleted before it is entered. -/
def secretKeys (t : Text) : Input :=
  { Input.ofBytes [] true false none with
    queue := threeColumns ++
      (Utf8.encode (t ++ ['\x17', '\x10', '\x7F', '\r'])).map .byte }

/-- Two such secrets of the same shape are not told apart by what is written. -/
theorem output_driven_of_masked_secretKeys : ∃ s t,
    start (shortMaskingEditor ⟨[['w', 'é', ' ', 'l', 'l', 'o']], 3, false⟩) .ofPipe
      (secretKeys ['a', 'é', ' ', 'b', '語']) (.fresh none) ['>'] = .ok s ∧
    start (shortMaskingEditor ⟨[['v', 'ö', ' ', 'z', 'z', 'y']], 3, false⟩) .ofPipe
      (secretKeys ['x', 'ü', ' ', 'y', '界']) (.fresh none) ['>'] = .ok t ∧
    (s.driven (fun _ => .feed) 9).line.text = ['w', 'é', ' '] ∧
    (t.driven (fun _ => .feed) 9).line.text = ['v', 'ö', ' '] ∧
    (t.driven (fun _ => .feed) 9).output = (s.driven (fun _ => .feed) 9).output ∧
    (t.driven (fun _ => .feed) 9).finish.output = (s.driven (fun _ => .feed) 9).finish.output := by
  obtain ⟨s, t, hstart, hs, hreports, hstart', ht, hreports', hkeys, hline, hline'⟩ : ∃ s t,
      start (shortMaskingEditor ⟨[['w', 'é', ' ', 'l', 'l', 'o']], 3, false⟩) .ofPipe
        (secretKeys ['a', 'é', ' ', 'b', '語']) (.fresh none) ['>'] = .ok s ∧
      s.isTerminal = true ∧
      (secretKeys ['a', 'é', ' ', 'b', '語']).queue = threeColumns ++ s.input.queue ∧
      start (shortMaskingEditor ⟨[['v', 'ö', ' ', 'z', 'z', 'y']], 3, false⟩) .ofPipe
        (secretKeys ['x', 'ü', ' ', 'y', '界']) (.fresh none) ['>'] = .ok t ∧
      t.isTerminal = true ∧
      (secretKeys ['x', 'ü', ' ', 'y', '界']).queue = threeColumns ++ t.input.queue ∧
      (∀ m < 9, (CharLikeness.shape .ordinary).likeness.Readings
        (s.driven (fun _ => .feed) m).reading (t.driven (fun _ => .feed) m).reading) ∧
      (s.driven (fun _ => .feed) 9).line.text = ['w', 'é', ' '] ∧
      (t.driven (fun _ => .feed) 9).line.text = ['v', 'ö', ' '] :=
    ⟨_, _, rfl, rfl, by decide +kernel, rfl, rfl, by decide +kernel, by decide +kernel,
      by decide +kernel, by decide +kernel⟩
  have hhistory : (CharLikeness.shape .ordinary).likeness.Histories
      ⟨[['w', 'é', ' ', 'l', 'l', 'o']], 3, false⟩ ⟨[['v', 'ö', ' ', 'z', 'z', 'y']], 3, false⟩ :=
    ⟨.cons (by decide +kernel : (CharLikeness.shape .ordinary).Texts _ _) .nil, rfl, rfl⟩
  exact ⟨s, t, hstart, hstart', hline, hline', output_driven_of_masked hstart hs hstart' ht hreports
    hreports' rfl rfl rfl hhistory (fun _ _ => .same _) fun m hm _ => hkeys m hm⟩

end Session

end Typeline
