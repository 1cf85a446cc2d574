import Typeline.Proofs.Session.OnScreen

/-!
# Prompts that are wider than the terminal

A prompt that does not fit into a row takes several, and the cursor ends up in the last of them. The
start of a session does not remember this, and a drawing on a single row never does: the next
drawing begins in the row of the cursor. So the edit goes down the screen by as many rows as the
prompt takes besides the first, over several rows with the first character that is typed, and on a
single row with every character. Above it copies of the first rows of the prompt are left.

If the prompt fits into a row, with a column to spare or not, nothing of this happens. Then hiding
the edit and showing it again leaves all that is drawn as it was, in sessions in which nothing but
characters has been typed.

## Main definitions

* `Session.overhang` : the rows that the prompt takes besides the first.
* `Session.drops`, `Session.nextDrops` : how often the edit has gone down, and will have.
* `Session.Descended` : how far down the screen the edit is.
* `Session.Redraws` : what hiding the edit and showing it again does.

## Main results

* `Session.Descended.leads_insertChar` : typing a character.
* `Session.redraws_driven` : after any characters, hiding the edit and showing it again.
-/

namespace Typeline

/-- A character, or no key at all. -/
def KeyReading.TypesOnly : KeyReading → Prop
  | .key (.char _) | .silent _ => True
  | .key _ => False

instance : DecidablePred KeyReading.TypesOnly := fun r =>
  match r with
  | .key (.char _) | .silent _ => .isTrue trivial
  | .key .enter | .key .interrupt | .key .deleteOrEnd | .key .delete | .key .backspace
  | .key .transpose | .key .left | .key .right | .key .home | .key .lineEnd | .key .killLine
  | .key .killToEnd | .key .deleteWord | .key .up | .key .down | .key .clearScreen | .key .tab
  | .key .escape | .key .ignored => .isFalse id

/-- With the cursor at the end of the line it gets everywhere, however long the line is. -/
theorem LineView.DrawsAlone.inReach_of_after_eq_nil {v : LineView} (h : v.DrawsAlone 1)
    (hafter : v.line.after = []) (hmax : v.width ≤ 65536) : v.InReach := by
  refine ⟨fun _ => ?_, Or.inl hmax⟩
  have hused := h.usedWidth_eq
  rw [hafter, List.length_nil, Nat.add_zero] at hused
  have hrows : rowsOf v.usedWidth v.width ≤ v.cursorWidth / v.width + 1 := by
    rw [rowsOf, hused, ← rowOf_add_width v.width_pos]
    exact Nat.div_le_div_right (Nat.sub_le _ _)
  rw [v.cursorRow_eq, blockRows]
  split <;> omega

namespace Session

variable {s t : Session} {initial screen : Screen}

/-- A call that reads nothing but characters that are typed, or input that comes. -/
def Types (s : Session) : SessionCall → Prop
  | .feed => s.reading.TypesOnly
  | .push _ => True
  | .hide | .reveal | .printAbove _ => False

instance (s : Session) : DecidablePred s.Types := fun c =>
  match c with
  | .feed => inferInstanceAs (Decidable s.reading.TypesOnly)
  | .push _ => .isTrue trivial
  | .hide | .reveal | .printAbove _ => .isFalse id

/-- The number of rows that the prompt takes besides the first. -/
def overhang (s : Session) : Nat := (promptWidth s.prompt - 1) / max s.columns 1

/-- How often the edit has gone down the screen while characters were typed. -/
def drops (s : Session) : Nat :=
  if s.editor.config.multiline then min 1 s.line.text.length else s.line.text.length

/-- How often the edit will have gone down with the next drawing. -/
def nextDrops (s : Session) : Nat :=
  if s.editor.config.multiline then 1 else s.line.text.length + 1

theorem drops_le_nextDrops (s : Session) : s.drops ≤ s.nextDrops ∧ s.nextDrops ≤ s.drops + 1 := by
  rw [drops, nextDrops]
  split <;> omega

theorem overhang_eq_zero_iff (hpos : 0 < s.columns) :
    s.overhang = 0 ↔ promptWidth s.prompt ≤ s.columns := by
  rw [overhang, Nat.max_eq_left hpos, Nat.div_eq_zero_iff]
  omega

theorem overhang_eq (hsettings : t.settings = s.settings) : t.overhang = s.overhang :=
  congrArg (fun p => (promptWidth p.prompt - 1) / max p.columns 1) hsettings

/-- How far down the screen the edit is when nothing but characters has been typed, on a terminal
that showed `initial` before. It is drawn below copies of the first rows of the prompt. -/
structure Descended (s : Session) (initial screen : Screen) : Prop where
  idle : s.cycle = .idle
  after_eq : s.line.after = []
  shown : (s.view true).ShownFrom screen (initial.row + s.overhang * s.drops)
  placed : s.HasRoom → (s.view true).PlacedAt screen (initial.row + s.overhang * s.drops)
  stands : s.Stands screen (initial.row + s.overhang * s.nextDrops)
  above : initial.SameAbove screen initial.row
  left : ∀ row, initial.row ≤ row → row < initial.row + s.overhang * s.drops →
    screen.cell row 0 ≠ .blank

/-- A session that differs in its keyboard alone is as far down. -/
theorem Descended.of_display (h : s.Descended initial screen) (same : t.display = s.display)
    (line : t.line = s.line) (cycle : t.cycle = s.cycle) : t.Descended initial screen := by
  have hidle := cycle.trans h.idle
  have hsettings : t.settings = s.settings := congrArg SessionDisplay.settings same
  have halike : s.ShowsAlike t := .of_display same
    (by rw [shownLine_of_idle hidle, shownLine_of_idle h.idle, line])
  have hoverhang := overhang_eq hsettings
  have hconfig : t.editor.config = s.editor.config := congrArg SessionSettings.config hsettings
  have hdrops : t.drops = s.drops := by rw [drops, drops, hconfig, line]
  have hnext : t.nextDrops = s.nextDrops := by rw [nextDrops, nextDrops, hconfig, line]
  refine ⟨hidle, line ▸ h.after_eq, ?_, fun hroom => ?_, ?_, h.above, ?_⟩
  · rw [halike.view_eq, hoverhang, hdrops]
    exact h.shown
  · rw [halike.view_eq, hoverhang, hdrops]
    exact h.placed (hroom.of_settings hsettings.symm)
  · rw [hoverhang, hnext]
    exact halike.stands h.stands
  · rw [hoverhang, hdrops]
    exact h.left

theorem narrow_of_after_eq_nil (hdraws : (s.view true).DrawsAlone 1)
    (hafter : s.shownLine.after = []) (hmax : s.columns ≤ 65535) : s.Narrow :=
  ⟨hdraws, hdraws.inReach_of_after_eq_nil hafter (by
    change max s.columns 1 ≤ 65536
    omega)⟩

/-! ### Typing a character -/

namespace Descended

variable (h : s.Descended initial screen)

include h

theorem narrow (hdraws : (s.view true).DrawsAlone 1) (hmax : s.columns ≤ 65535) : s.Narrow :=
  narrow_of_after_eq_nil hdraws (shownLine_of_idle h.idle ▸ h.after_eq) hmax

/-- Up to where the next drawing lands, something is shown at the start of every row. -/
theorem ne_blank (hdraws : (s.view true).DrawsAlone 1) {row : Nat} (hinitial : initial.row ≤ row)
    (hrow : row < initial.row + s.overhang * s.nextDrops) : screen.cell row 0 ≠ .blank := by
  by_cases hold : row < initial.row + s.overhang * s.drops
  · exact h.left row hinitial hold
  · refine h.shown.ne_blank_of_prompt hdraws (by omega) ?_
    have hmore := Nat.mul_le_mul_left s.overhang s.drops_le_nextDrops.2
    rw [Nat.mul_succ] at hmore
    exact Nat.lt_of_lt_of_le hrow (by
      change _ ≤ _ + s.overhang
      omega)

/-- A drawing of the line with one more character goes down once more. -/
theorem leads_redraw (same : t.display = s.display) (cycle : t.cycle = s.cycle) {c : Char}
    (htext : t.line.text = s.line.text ++ [c]) (hend : t.line.after = [])
    (hbefore : (s.view true).DrawsAlone 1) (hdraws : (t.view true).DrawsAlone 1)
    (hmax : s.columns ≤ 65535) :
    ∃ screen', s.output.Leads screen (t.refresh .all).output screen' ∧
      (t.refresh .all).Descended initial screen' := by
  have hsettings : t.settings = s.settings := congrArg SessionDisplay.settings same
  have hidle : t.cycle = .idle := cycle.trans h.idle
  have hcolumns : t.columns = s.columns := congrArg SessionSettings.columns hsettings
  have hnarrow : t.Narrow := narrow_of_after_eq_nil hdraws (shownLine_of_idle hidle ▸ hend)
    (Nat.le_trans (Nat.le_of_eq hcolumns) hmax)
  obtain ⟨screen', hleads, hplaced, hsame⟩ := h.stands.leads_drawn same hnarrow true
  have hrow := hplaced.row_eq
  have hstate : (t.view true).Remembers (t.refresh .all).drawState :=
    (t.view true).remembers_draw t.drawState rfl
  obtain ⟨hready, hlanding⟩ :=
    hplaced.toShownFrom.ready hdraws (hnarrow.inReach true) hstate
  have hlength : t.line.text.length = s.line.text.length + 1 := by
    rw [htext, List.length_append, List.length_singleton]
  have hmulti : t.editor.config.multiline = s.editor.config.multiline :=
    congrArg (fun p => p.config.multiline) hsettings
  have hdrops : (t.refresh .all).drops = s.nextDrops := by
    change (if t.editor.config.multiline then min 1 t.line.text.length else t.line.text.length) = _
    rw [nextDrops, hmulti]
    split <;> omega
  have hoverhang : (t.refresh .all).overhang = s.overhang := overhang_eq hsettings
  have htop : initial.row + (t.refresh .all).overhang * (t.refresh .all).drops =
      initial.row + s.overhang * s.nextDrops := by
    rw [hdrops, hoverhang]
  refine ⟨screen', hleads, hidle, hend, htop ▸ hplaced.toShownFrom, fun _ => htop ▸ hplaced,
    ⟨hready, hlanding.trans ?_⟩, h.above.trans (hsame.mono (Nat.le_add_right _ _)),
    fun row hinitial hlow => ?_⟩
  · -- On a single row the cursor is below the first row of the drawing, if the prompt is too wide.
    have hnext : (t.refresh .all).nextDrops =
        if t.editor.config.multiline then 1 else t.line.text.length + 1 := rfl
    change (if t.editor.config.multiline then _ else _) = _
    rw [hnext, hoverhang, hrow, nextDrops, ← hmulti]
    cases hrows : t.editor.config.multiline with
    | true => rfl
    | false =>
      have hdrawn : (t.view true).drawnRow = s.overhang :=
        (hdraws.drawnRow_of_prompt hrows).trans (overhang_eq hsettings)
      simp only [Bool.false_eq_true, if_false]
      rw [hdrawn, hlength, Nat.mul_succ _ (_ + 1), Nat.add_assoc]
  · rw [htop] at hlow
    rw [hsame row 0 hlow]
    exact h.ne_blank hbefore hinitial hlow

/-- A character that is written by itself leaves the edit where it is, since there is room in the
row. -/
theorem leads_typed (hnone : s.editor.hinter = none) {line : Line} {c : Char}
    (insert : s.line.insert [c] = some line)
    (plain : { s with line }.isPlainInsertion s.line.atEnd c = true) (hend : line.after = [])
    (hbefore : (s.view true).DrawsAlone 1) (hdraws : ((s.typed c line).view true).DrawsAlone 1)
    (hmax : s.columns ≤ 65535) :
    ∃ screen', s.output.Leads screen (s.typed c line).output screen' ∧
      (s.typed c line).Descended initial screen' := by
  have hfits := plain
  simp only [isPlainInsertion, Bool.and_eq_true, decide_eq_true_eq, Bool.not_eq_true'] at hfits
  obtain ⟨⟨⟨-, hfits⟩, hsingle⟩, -⟩ := hfits
  have hroom : s.HasRoom := Nat.lt_of_le_of_lt (Nat.le_add_right _ _) hfits
  have hzero : s.overhang = 0 := (overhang_eq_zero_iff (by omega)).mpr (Nat.le_of_lt hroom)
  have htop (drops : Nat) : initial.row + s.overhang * drops = initial.row := by
    rw [hzero, Nat.zero_mul, Nat.add_zero]
  have hplaced := h.placed hroom
  have hstands := h.stands
  rw [htop] at hplaced hstands
  have honScreen : s.OnScreen screen initial.row :=
    ⟨hstands, ⟨true, hplaced⟩, fun hmulti =>
      absurd (hsingle.symm.trans hmulti) Bool.false_ne_true⟩
  have hnarrow' : (s.typed c line).Narrow :=
    narrow_of_after_eq_nil hdraws
      ((shownLine_of_idle (s := s.typed c line) h.idle).symm ▸ hend) hmax
  obtain ⟨screen', hleads, ⟨hstands', ⟨hints, hplaced'⟩, -⟩, hsame⟩ :=
    honScreen.leads_typed hroom (h.narrow hbefore hmax) h.idle insert plain hnarrow'
  rw [view_of_no_hinter (s := s.typed c line) hnone] at hplaced'
  have htop' (drops : Nat) : initial.row + (s.typed c line).overhang * drops = initial.row :=
    htop drops
  refine ⟨screen', hleads, h.idle, hend, ?_, fun _ => ?_, ?_, h.above.trans hsame, ?_⟩
  · rw [htop']
    exact hplaced'.toShownFrom
  · rw [htop']
    exact hplaced'
  · rw [htop']
    exact hstands'
  · intro row hinitial hlow
    rw [htop'] at hlow
    exact absurd hlow (Nat.not_lt_of_le hinitial)

/-- **Typing a character.** -/
theorem leads_insertChar (hnone : s.editor.hinter = none) (c : Char)
    (hbefore : (s.view true).DrawsAlone 1) (hdraws : ((s.insertChar c).view true).DrawsAlone 1)
    (hmax : s.columns ≤ 65535) :
    ∃ screen', s.output.Leads screen (s.insertChar c).output screen' ∧
      (s.insertChar c).Descended initial screen' := by
  rw [insertChar] at hdraws ⊢
  cases hinsert : s.line.insert [c] with
  | none => exact ⟨screen, .refl _ _, h⟩
  | some line =>
    obtain ⟨htext, hend⟩ := Line.insert_of_atEnd hinsert (by rw [Line.atEnd, h.after_eq]; rfl)
    rw [hinsert] at hdraws
    dsimp only at hdraws ⊢
    by_cases hplain : { s with line }.isPlainInsertion s.line.atEnd c = true
    · rw [if_pos hplain] at hdraws ⊢
      exact h.leads_typed hnone hinsert hplain hend hbefore hdraws hmax
    · rw [if_neg hplain] at hdraws ⊢
      exact h.leads_redraw (t := { s with line }) rfl rfl htext hend hbefore hdraws hmax

end Descended

/-- Reading a character, or no key at all, types the character or changes nothing. -/
theorem feed_of_typesOnly (hterminal : s.isTerminal = true) (hidle : s.cycle = .idle)
    (h : s.reading.TypesOnly) : (∃ c, s.feed.2 = s.afterReading.insertChar c) ∨
      s.feed.2.display = s.display ∧ s.feed.2.line = s.line ∧ s.feed.2.cycle = s.cycle := by
  rw [feed_of_isTerminal hterminal]
  rw [reading] at h
  cases hread : (s.decoder.read s.input).1 with
  | key k =>
    rw [hread] at h
    cases k with
    | char c =>
      refine .inl ⟨c, ?_⟩
      dsimp only
      rw [press_of_complete (complete_of_idle_of_ne (s := s.afterReading) hidle (by simp))]
      rfl
    | _ => exact h.elim
  | silent silence => cases silence <;> exact .inr ⟨rfl, rfl, rfl⟩

/-- A call that types a character or nothing. -/
theorem Descended.leads_called (h : s.Descended initial screen) (hterminal : s.isTerminal = true)
    (hnone : s.editor.hinter = none) (hmax : s.columns ≤ 65535) {c : SessionCall}
    (hc : s.Types c) (hbefore : (s.view true).DrawsAlone 1)
    (hafter : ((s.called c).view true).DrawsAlone 1) :
    ∃ screen', s.output.Leads screen (s.called c).output screen' ∧
      (s.called c).Descended initial screen' := by
  cases c with
  | feed =>
    rw [called] at hafter ⊢
    rcases feed_of_typesOnly hterminal h.idle hc with ⟨c, hfeed⟩ | ⟨same, line, cycle⟩
    · rw [hfeed] at hafter ⊢
      have hread : s.afterReading.Descended initial screen := h.of_display rfl rfl rfl
      exact hread.leads_insertChar hnone c hbefore hafter hmax
    · rw [show s.feed.2.output = s.output from congrArg SessionDisplay.output same]
      exact ⟨screen, .refl _ _, h.of_display same line cycle⟩
  | push more => exact ⟨screen, .refl _ _, h.of_display rfl rfl rfl⟩
  | hide => exact hc.elim
  | reveal => exact hc.elim
  | printAbove t => exact hc.elim

/-- Right after the start the edit has not gone down yet. -/
theorem descended_start {editor : Editor} {mode : RawMode} {input : Input} {output : Output}
    {prompt : Text} (hstart : start editor mode input output prompt = .ok s)
    (hterminal : s.isTerminal = true) (hnone : editor.hinter = none) (hpos : 0 < s.columns)
    (hbelow : StartsBelow editor input output initial) (hdraws : (s.view true).DrawsAlone 1) :
    ∃ screen, output.Leads initial s.output screen ∧ s.Descended initial screen := by
  obtain ⟨hidle, hbefore, hafter⟩ :
      s.cycle = .idle ∧ s.line.before = [] ∧ s.line.after = [] := by
    obtain rfl := start_eq_of_isTerminal hstart hterminal
    exact ⟨rfl, rfl, rfl⟩
  obtain ⟨-, -, hhinter⟩ := settings_start hstart hterminal
  obtain ⟨-, -, -, hstate⟩ := start_on_terminal hstart hterminal
  have hview : s.view false = s.view true := view_of_no_hinter (hhinter.trans hnone) false
  have hempty : (s.view true).line.before = [] ∧ (s.view true).line.after = [] := by
    rw [show (s.view true).line = s.line from shownLine_of_idle hidle]
    exact ⟨hbefore, hafter⟩
  obtain ⟨screen, hleads, hshown, hsame, hplaced⟩ := leads_prompt hstart hterminal hbelow
    (hview ▸ hdraws) (Nat.max_eq_left hpos)
  rw [hview] at hshown hplaced
  obtain ⟨hready, hlanding⟩ := hshown.ready_initial hdraws hempty (hhinter.trans hnone)
  rw [hshown.row_eq, LineView.drawnRow_of_empty hdraws hempty] at hlanding
  have hlength : s.line.text.length = 0 := by
    rw [Line.text, hbefore, hafter]
    rfl
  have hdrops : s.drops = 0 := by
    rw [drops, hlength]
    split <;> rfl
  have hnext : s.nextDrops = 1 := by
    rw [nextDrops, hlength]
    split <;> rfl
  refine ⟨screen, hleads, hidle, hafter, ?_, fun hroom => ?_, ?_, hsame, ?_⟩
  · rwa [hdrops]
  · rw [hdrops]
    exact hplaced hroom
  · rw [hnext, Nat.mul_one]
    exact ⟨hstate ▸ hready, hstate ▸ hlanding⟩
  · intro row hinitial hlow
    rw [hdrops] at hlow
    exact absurd hlow (Nat.not_lt_of_le hinitial)

/-- **Typing characters.** -/
theorem descended_driven {editor : Editor} {mode : RawMode} {input : Input} {output : Output}
    {prompt : Text} (hstart : start editor mode input output prompt = .ok s)
    (hterminal : s.isTerminal = true) (hnone : editor.hinter = none) (hpos : 0 < s.columns)
    (hmax : s.columns ≤ 65535) (hbelow : StartsBelow editor input output initial)
    {calls : Nat → SessionCall} {n : Nat} (htypes : ∀ m < n, (s.driven calls m).Types (calls m))
    (hdraws : ∀ m ≤ n, ((s.driven calls m).view true).DrawsAlone 1) :
    ∃ screen, output.Leads initial (s.driven calls n).output screen ∧
      (s.driven calls n).Descended initial screen := by
  induction n with
  | zero => exact descended_start hstart hterminal hnone hpos hbelow (hdraws 0 (Nat.le_refl 0))
  | succ n ih =>
    obtain ⟨screen₁, hleads₁, hdown₁⟩ :=
      ih (fun m hm => htypes m (Nat.lt_succ_of_lt hm)) fun m hm => hdraws m (Nat.le_succ_of_le hm)
    have hsettings := s.settings_driven calls n
    have hnone' : (s.driven calls n).editor.hinter = none :=
      ((congrArg SessionSettings.hinter hsettings).trans
        (settings_start hstart hterminal).2.2).trans hnone
    have hcolumns : (s.driven calls n).columns = s.columns :=
      congrArg SessionSettings.columns hsettings
    obtain ⟨screen₂, hleads₂, hdown₂⟩ := hdown₁.leads_called (isTerminal_driven hterminal calls n)
      hnone' (Nat.le_trans (Nat.le_of_eq hcolumns) hmax) (htypes n (Nat.lt_succ_self n))
      (hdraws n (Nat.le_succ n)) (hdraws (n + 1) (Nat.le_refl _))
    exact ⟨screen₂, hleads₁.trans hleads₂, hdown₂⟩

/-! ### Hiding the edit and showing it again -/

/-- What hiding the edit and showing it again makes of the screen of a session in which nothing but
characters has been typed, on a terminal that showed `initial` before. It is shown where it was if
and only if the prompt fits into a row or the edit takes several rows and has gone down already, and
no copy of the prompt is left above if and only if it fits or nothing has been typed. -/
structure Redraws (s : Session) (initial before after : Screen) : Prop where
  shown : (s.view true).ShownFrom before (initial.row + s.overhang * s.drops)
  redrawn : (s.view true).PlacedAt after (initial.row + s.overhang * s.nextDrops)
  same_iff : (∀ row column, after.cell row column = before.cell row column) ↔
    promptWidth s.prompt ≤ s.columns ∨ s.editor.config.multiline = true ∧ s.line.text ≠ []
  line_eq : promptWidth s.prompt ≤ s.columns ∨
    s.editor.config.multiline = true ∧ s.line.text ≠ [] → ∀ row, after.line row = before.line row
  clean_iff : initial.SameAbove before (initial.row + s.overhang * s.drops) ↔
    promptWidth s.prompt ≤ s.columns ∨ s.line.text = []

/-- With a prompt that is too wide, the edit has gone as far down as it will if and only if it takes
several rows and a character has been typed. -/
theorem drops_eq_nextDrops_iff : s.drops = s.nextDrops ↔
    s.editor.config.multiline = true ∧ s.line.text ≠ [] := by
  rw [drops, nextDrops, ← List.length_pos_iff]
  cases s.editor.config.multiline with
  | true =>
    rw [if_pos rfl, if_pos rfl, eq_self_iff_true, true_and]
    omega
  | false =>
    rw [if_neg Bool.false_ne_true, if_neg Bool.false_ne_true]
    simp

private theorem drops_eq_zero_iff : s.drops = 0 ↔ s.line.text = [] := by
  rw [drops, ← List.length_eq_zero_iff]
  split <;> omega

private theorem overhang_mul_drops_eq_zero_iff (hpos : 0 < s.columns) : s.overhang * s.drops = 0 ↔
    promptWidth s.prompt ≤ s.columns ∨ s.line.text = [] := by
  rw [Nat.mul_eq_zero, overhang_eq_zero_iff hpos, drops_eq_zero_iff]

namespace Descended

variable (h : s.Descended initial screen) (hpos : 0 < s.columns)

include h hpos

/-- No copy of the prompt is left above the edit if and only if it has not gone down. -/
theorem sameAbove_iff (hblank : initial.BlankFrom initial.row) :
    initial.SameAbove screen (initial.row + s.overhang * s.drops) ↔
      promptWidth s.prompt ≤ s.columns ∨ s.line.text = [] := by
  rw [← overhang_mul_drops_eq_zero_iff hpos]
  constructor
  · intro hsame
    by_contra hdown
    have hrow : initial.row < initial.row + s.overhang * s.drops := by omega
    refine h.left initial.row (Nat.le_refl _) hrow ?_
    rw [hsame initial.row 0 hrow, hblank initial.row 0 (Nat.le_refl _)]
  · intro hzero
    rw [hzero]
    exact h.above

/-- The edit is shown where it was if and only if it does not go down. -/
theorem cell_eq_iff (hdraws : (s.view true).DrawsAlone 1) {screen' : Screen}
    (hshown : (s.view true).ShownFrom screen' (initial.row + s.overhang * s.nextDrops))
    (hsame : screen.SameAbove screen' (initial.row + s.overhang * s.nextDrops)) :
    (∀ row column, screen'.cell row column = screen.cell row column) ↔
      promptWidth s.prompt ≤ s.columns ∨ s.editor.config.multiline = true ∧ s.line.text ≠ [] := by
  rw [← overhang_eq_zero_iff hpos, ← drops_eq_nextDrops_iff]
  by_cases hstays : s.overhang = 0 ∨ s.drops = s.nextDrops
  · refine iff_of_true (h.shown.cell_eq ?_ ?_) hstays
    · rcases hstays with hzero | hdrops
      · simpa only [hzero, Nat.zero_mul] using hshown
      · rwa [hdrops]
    · rcases hstays with hzero | hdrops
      · simpa only [hzero, Nat.zero_mul] using hsame
      · rwa [hdrops]
  · refine iff_of_false (fun hcells => ?_) hstays
    obtain ⟨hover, hdrops⟩ := not_or.mp hstays
    have hlt := Nat.mul_lt_mul_of_pos_left
      (Nat.lt_of_le_of_ne s.drops_le_nextDrops.1 hdrops) (Nat.pos_of_ne_zero hover)
    have hwide : promptWidth s.prompt ≤ (s.view true).drawnText.length :=
      hdraws.promptWidth_le_drawnText
    have hsome : (s.view true).drawnText ≠ [] := by
      rw [← List.length_pos_iff]
      have hfits := mt (overhang_eq_zero_iff hpos).mpr hover
      omega
    obtain ⟨row, column, hne⟩ := h.shown.exists_cell_ne hshown (Nat.add_lt_add_left hlt _) hsome
    exact hne (hcells row column)

private theorem leads_again (hterminal : s.isTerminal = true) (hnarrow : s.Narrow)
    (hblank : initial.BlankFrom initial.row) :
    ∃ screen', s.output.Leads screen s.hide.reveal.output screen' ∧
      s.Redraws initial screen screen' := by
  obtain ⟨screen₁, hleads₁, hvacant, hrow, hsame₁⟩ := h.stands.leads_erased hterminal
  have hsettings := s.settings_hide
  have hterminal' : s.hide.isTerminal = true :=
    (congrArg SessionSettings.isTerminal hsettings).trans hterminal
  have hnarrow' : s.hide.Narrow := by
    rw [Narrow, shownLine_hide, hsettings]
    exact hnarrow
  obtain ⟨screen₂, hleads₂, hplaced, hsame₂⟩ := leads_shown hterminal' hnarrow' hvacant.wellFormed
    (by rw [hleads₁.columns_eq, view_hide]; exact h.shown.columns_eq)
    (hvacant.blankFrom.mono (Nat.le_succ _)).blankBehind
  rw [view_hide] at hplaced
  rw [hrow] at hplaced hsame₂
  have hiff :=
    h.cell_eq_iff hpos (hnarrow.drawsAlone true) hplaced.toShownFrom (hsame₁.trans hsame₂)
  refine ⟨screen₂, hleads₁.trans hleads₂, h.shown, hplaced, hiff, fun hstays row => ?_,
    h.sameAbove_iff hpos hblank⟩
  exact h.shown.wellFormed.line_congr hplaced.wellFormed
    (hplaced.columns_eq.trans h.shown.columns_eq.symm) (hiff.mpr hstays row)

end Descended

/-- **Hiding the edit and showing it again.** After any calls that read nothing but characters, on a
terminal of any number of columns and with a prompt of any width, the edit is shown where it was if
and only if the prompt fits into a row, or the edit takes several rows and a character has been
typed. No copy of the prompt is left above it if and only if the prompt fits or nothing has been
typed. -/
theorem redraws_driven {editor : Editor} {mode : RawMode} {input : Input} {output : Output}
    {prompt : Text} (hstart : start editor mode input output prompt = .ok s)
    (hterminal : s.isTerminal = true) (hnone : editor.hinter = none) (hmax : s.columns ≤ 65535)
    (hbelow : StartsBelow editor input output initial) {calls : Nat → SessionCall} {n : Nat}
    (htypes : ∀ m < n, (s.driven calls m).Types (calls m))
    (hdraws : ∀ m ≤ n, ((s.driven calls m).view true).DrawsAlone 1)
    (haccepts : (s.driven calls n).hide.reveal.output.Accepts) :
    (s.driven calls n).Redraws initial ((s.driven calls n).replayed output initial)
      ((s.driven calls n).hide.reveal.replayed output initial) := by
  obtain ⟨-, hsettings, -⟩ := start_on_terminal hstart hterminal
  have hpos : 0 < s.columns := by
    rw [show s.columns = _ from congrArg SessionSettings.columns hsettings, ← hbelow.columns_eq]
    exact hbelow.vacant.wellFormed.columns_pos
  have hcolumns : (s.driven calls n).columns = s.columns :=
    congrArg SessionSettings.columns (s.settings_driven calls n)
  obtain ⟨screen, hleads, hdown⟩ :=
    descended_driven hstart hterminal hnone hpos hmax hbelow htypes hdraws
  obtain ⟨screen', hleads', hredraws⟩ := hdown.leads_again (by rw [hcolumns]; exact hpos)
    (isTerminal_driven hterminal calls n)
    (hdown.narrow (hdraws n (Nat.le_refl n)) (Nat.le_trans (Nat.le_of_eq hcolumns) hmax))
    hbelow.vacant.blankFrom
  rwa [replayed_eq (hleads.trans hleads') haccepts hbelow.reader_eq,
    replayed_eq hleads (hleads'.accepts haccepts) hbelow.reader_eq]

/-- On a terminal of four columns the prompt takes two rows. After two characters have been typed on
a single row, hiding the edit and showing it again shows it two rows further down. -/
theorem redraws_driven_wide : ∃ s,
    start (.ofConfig .default (.ofColumns 4)) .ofPipe
      (.ofBytes (Utf8.encode ['a', 'b']) true false none) (.fresh none)
      ['h', 'e', 'l', 'l', 'o', '>'] = .ok s ∧
    (s.driven (fun _ => .feed) 2).Redraws (.blank 4)
      ((s.driven (fun _ => .feed) 2).replayed (.fresh none) (.blank 4))
      ((s.driven (fun _ => .feed) 2).hide.reveal.replayed (.fresh none) (.blank 4)) ∧
    (s.driven (fun _ => .feed) 2).drops = 2 ∧ (s.driven (fun _ => .feed) 2).nextDrops = 3 := by
  obtain ⟨s, hstart, hterminal, hmax, htypes, hdraws, haccepts, hdrops⟩ : ∃ s,
      start (.ofConfig .default (.ofColumns 4)) .ofPipe
        (.ofBytes (Utf8.encode ['a', 'b']) true false none) (.fresh none)
        ['h', 'e', 'l', 'l', 'o', '>'] = .ok s ∧
      s.isTerminal = true ∧ s.columns ≤ 65535 ∧
      (∀ m < 2, (s.driven (fun _ => .feed) m).Types .feed) ∧
      (∀ m ≤ 2, (s.driven (fun _ => .feed) m).PlainlyNarrow) ∧
      (s.driven (fun _ => .feed) 2).hide.reveal.output.Accepts ∧
      (s.driven (fun _ => .feed) 2).drops = 2 ∧ (s.driven (fun _ => .feed) 2).nextDrops = 3 :=
    ⟨_, rfl, rfl, by decide, by decide +kernel, by decide +kernel, by decide +kernel,
      by decide +kernel⟩
  exact ⟨s, hstart, redraws_driven hstart hterminal rfl hmax
    (startsBlank_blank (by decide) rfl _ _).startsBelow htypes
    (fun m hm => (hdraws m hm).narrow.drawsAlone true) haccepts, hdrops⟩

/-- So hiding the edit and showing it again right after the start may change what is shown. -/
theorem exists_not_redrawn : ¬∀ (editor : Editor) (mode : RawMode) (input : Input)
    (output : Output) (prompt : Text) (s : Session) (screen : Screen) (calls : Nat → SessionCall)
    (n : Nat), start editor mode input output prompt = .ok s → s.isTerminal = true →
      editor.hinter = none → s.columns ≤ 65535 → StartsBlank editor input output screen →
      (∀ m < n, (s.driven calls m).Types (calls m)) →
      (∀ m ≤ n, ((s.driven calls m).view true).DrawsAlone 1) →
      (s.driven calls n).hide.reveal.output.Accepts →
        ∀ row, ((s.driven calls n).hide.reveal.replayed output screen).line row =
          ((s.driven calls n).replayed output screen).line row := by
  intro h
  obtain ⟨s, hstart, hterminal, hmax, hdraws, haccepts, hbefore, hafter⟩ : ∃ s,
      start (.ofConfig ⟨true, false, 80⟩ (.ofColumns 4)) .ofPipe (.ofBytes [] true false none)
        (.fresh none) ['h', 'e', 'l', 'l', 'o', '>'] = .ok s ∧
      s.isTerminal = true ∧ s.columns ≤ 65535 ∧ s.PlainlyNarrow ∧ s.hide.reveal.output.Accepts ∧
      (s.replayed (.fresh none) (.blank 4)).line 1 = ['o', '>'] ∧
      (s.hide.reveal.replayed (.fresh none) (.blank 4)).line 1 = ['h', 'e', 'l', 'l'] :=
    ⟨_, rfl, rfl, by decide, by decide +kernel, by decide +kernel, by decide +kernel,
      by decide +kernel⟩
  have hsame := h _ _ _ _ _ s _ (fun _ => .feed) 0 hstart hterminal rfl hmax
    (startsBlank_blank (by decide) rfl _ _) (fun m hm => absurd hm (Nat.not_lt_zero m))
    (fun m hm => by rw [Nat.le_zero.mp hm]; exact hdraws.narrow.drawsAlone true) haccepts 1
  rw [show (s.driven (fun _ => .feed) 0) = s from rfl, hbefore, hafter] at hsame
  exact absurd hsame (by decide)

end Session

end Typeline
