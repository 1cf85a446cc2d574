import Typeline.Proofs.Session.Calls
import Typeline.Proofs.Session.RowRange

/-!
# Columns in range

A drawing counts columns: those of the prompt, of the line, and of the line up to the cursor. None
of these numbers leaves its range if prompt, line and terminal together are not astronomically wide
and the cursor stands between two clusters, whether the line is shown on a single row or on several.
A session that shows only such lines therefore stays in range.

## Main definitions

* `Session.HasRange` : there is room for the columns of a line of so many bytes.
* `Session.Drawable` : a line that a session can draw.

## Main results

* `Session.inRange_refreshWith` : one drawing.
* `Session.inRange_driven` : any calls.
-/

namespace Typeline

theorem contentWidth_le_byteLength (masked : Bool) (t : Text) :
    contentWidth masked t ≤ byteLength t := by
  cases masked with
  | true => exact clusterCount_le_byteLength t
  | false => exact textWidth_le_byteLength t

namespace Session

variable {s t : Session}

/-- The columns of a line of so many bytes stay in range, wherever the cursor is. -/
def HasRange (s : Session) (bytes : Nat) : Prop :=
  promptWidth s.prompt + bytes + max s.columns 1 ≤ maxCount

instance (s : Session) (bytes : Nat) : Decidable (s.HasRange bytes) :=
  inferInstanceAs (Decidable (_ ≤ _))

theorem HasRange.mono {m n : Nat} (h : s.HasRange n) (hle : m ≤ n) : s.HasRange m := by
  rw [HasRange] at h ⊢
  omega

theorem HasRange.of_settings {n : Nat} (h : s.HasRange n) (hsettings : t.settings = s.settings) :
    t.HasRange n := by
  have hprompt : t.prompt = s.prompt := congrArg SessionSettings.prompt hsettings
  have hcolumns : t.columns = s.columns := congrArg SessionSettings.columns hsettings
  rwa [HasRange, hprompt, hcolumns]

/-- A line that a session can draw: the cursor stands between two clusters, and there is room for
its columns. -/
structure Drawable (s : Session) (line : Line) : Prop where
  onBoundary : line.OnBoundary
  hasRange : s.HasRange (byteLength line.text)

theorem Drawable.of_settings {line : Line} (h : s.Drawable line)
    (hsettings : t.settings = s.settings) : t.Drawable line :=
  ⟨h.onBoundary, h.hasRange.of_settings hsettings⟩

/-- **Drawing a line that can be drawn** keeps the columns in range. -/
theorem inRange_refreshWith (h : s.Drawable s.shownLine) (mode : RefreshMode) (hints : Bool) :
    (s.refreshWith mode hints).inRange = s.inRange := by
  cases hmulti : s.editor.config.multiline with
  | false =>
    rw [Bool.eq_iff_iff, inRange_refreshWith_iff hmulti]
    exact and_iff_left fun hover => hover.1 h.onBoundary
  | true =>
    have hcontent := contentWidth_le_byteLength s.editor.config.masked s.shownLine.text
    have hbefore := contentWidth_le_byteLength s.editor.config.masked s.shownLine.textBefore
    have htext : byteLength s.shownLine.text =
        byteLength s.shownLine.textBefore + byteLength s.shownLine.after := byteLength_append _ _
    have hused : (s.view hints).usedWidth =
        promptWidth s.prompt + contentWidth s.editor.config.masked s.shownLine.text := rfl
    have hcursor : (s.view hints).cursorWidth =
        promptWidth s.prompt + contentWidth s.editor.config.masked s.shownLine.textBefore := rfl
    have hwidth : (s.view hints).width = max s.columns 1 := rfl
    have hdraw : (s.refreshWith mode hints).inRange =
        (s.inRange && ((s.view hints).drawRows s.drawState mode).inRange) := by
      change (s.inRange && ((s.view hints).draw s.drawState mode).inRange) = _
      rw [LineView.draw, if_pos (show (s.view hints).multiline = true from hmulti)]
    have hrange := h.hasRange
    rw [HasRange] at hrange
    have husedRange : (s.view hints).usedWidth ≤ maxCount := by omega
    have hcursorRange : (s.view hints).cursorWidth + (s.view hints).width ≤ maxCount := by omega
    rw [hdraw, LineView.drawRows]
    split
    · simp only [husedRange, hcursorRange, decide_true, Bool.and_self, Bool.and_true]
    · simp only [husedRange, decide_true, Bool.and_true]

/-! ### Keys -/

/-- One action keeps the columns in range if the line that is then shown can be drawn. -/
theorem inRange_act {ends clears : Prop} (h : Acts ends clears s t)
    (hline : s.Drawable t.shownLine) : t.inRange = s.inRange := by
  cases h with
  | rest same line => exact congrArg SessionDisplay.inRange same
  | @redraw t hints same shown =>
    have hdrawable : t.Drawable t.shownLine :=
      Drawable.of_settings hline (congrArg SessionDisplay.settings same)
    exact (inRange_refreshWith hdrawable .all hints).trans (congrArg SessionDisplay.inRange same)
  | @ring t same line => exact congrArg SessionDisplay.inRange same
  | type c idle insert plain => rfl
  | clear request =>
    have hdrawable : s.cleared.Drawable s.cleared.shownLine := Drawable.of_settings hline rfl
    exact inRange_refreshWith hdrawable .all true

private theorem inRange_chain {ends clears : Prop} {first last : Line}
    (h : Chain ends clears first last s t) (hfirst : s.Drawable first) (hlast : s.Drawable last) :
    t.inRange = s.inRange := by
  induction h with
  | refl => rfl
  | @tail t u htail step ih =>
    have hsettings : t.settings = s.settings := Chain.settings_eq htail
    have hline : s.Drawable u.shownLine := by
      rcases step.2 with heq | heq <;> rwa [heq]
    rw [inRange_act step.1 (hline.of_settings hsettings), ih]

private theorem inRange_feed (hbefore : s.Drawable s.shownLine)
    (hafter : s.Drawable s.feed.2.shownLine) : s.feed.2.inRange = s.inRange := by
  by_cases hterminal : s.isTerminal = true
  · exact inRange_chain (feed_chain hterminal) hbefore hafter
  · exact congrArg SessionDisplay.inRange (feed_of_not_isTerminal hterminal).1

/-! ### Calls -/

/-- **Any call** keeps the columns in range if the lines shown before and after it can be drawn. -/
theorem inRange_called {c : SessionCall} (hbefore : s.Drawable s.shownLine)
    (hafter : s.Drawable (s.called c).shownLine) : (s.called c).inRange = s.inRange := by
  have hhide : s.hide.inRange = s.inRange := by
    rw [hide]
    split
    · exact inRange_refreshWith hbefore .clean true
    · rfl
  have hreveal {u : Session} (hu : u.Drawable u.shownLine) : u.reveal.inRange = u.inRange := by
    rw [reveal]
    split
    · exact inRange_refreshWith hu .write true
    · rfl
  cases c with
  | feed => exact inRange_feed hbefore hafter
  | hide => exact hhide
  | reveal => exact hreveal hbefore
  | printAbove u =>
    have hhidden : (s.hide.write (linesAbove u)).settings = s.settings ∧
        (s.hide.write (linesAbove u)).shownLine = s.shownLine := by
      rw [hide]
      split <;> exact ⟨rfl, rfl⟩
    have hdrawable := hbefore.of_settings hhidden.1
    rw [← hhidden.2] at hdrawable
    exact (hreveal hdrawable).trans hhide
  | push more => rfl

/-- **Any calls** keep the columns in range if all lines that are shown can be drawn. -/
theorem inRange_driven {calls : Nat → SessionCall} {n : Nat}
    (hshown : ∀ m ≤ n, s.Drawable (s.driven calls m).shownLine) :
    (s.driven calls n).inRange = s.inRange := by
  induction n with
  | zero => rfl
  | succ n ih =>
    have hdrawable (m : Nat) (hm : m ≤ n + 1) :
        (s.driven calls n).Drawable (s.driven calls m).shownLine :=
      (hshown m hm).of_settings (s.settings_driven calls n)
    exact (inRange_called (hdrawable n (Nat.le_succ n)) (hdrawable (n + 1) (Nat.le_refl _))).trans
      (ih fun m hm => hshown m (Nat.le_succ_of_le hm))

end Session

end Typeline
