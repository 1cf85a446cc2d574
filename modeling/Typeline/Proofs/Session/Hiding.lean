import Typeline.Proofs.Session.Above

/-!
# Hiding an edit over several rows

Hiding an edit that is on the screen erases its rows and nothing above them. But the rows of the
edit are still remembered then, although the cursor has been moved to the first of them. So whatever
is drawn or erased next begins above the edit, by as many rows as the cursor was below its first
row: hiding the edit once more erases these rows, and a key that draws the line draws it over them.
Only showing the edit draws it where it was, since nothing is erased before.

This is followed over any calls. An edit over several rows is always on the screen or erased, and in
both cases it is known where the next drawing lands.

## Main definitions

* `Session.Followed` : the edit is on the screen or erased.
* `Session.BeginsAt` : the row from which on hiding erases.
* `Session.hides` : hiding several times.

## Main results

* `Session.Followed.leads_called` : any call.
* `Session.Hidden.leads_hides` : hiding an edit that is erased, any number of times.
* `Session.erasedFrom_hides` : what hiding the edit, and a key after it, do to what is above.
-/

namespace Typeline

/-- Two screens show the same, with the cursor in the same place. -/
structure Screen.SameAs (s s' : Screen) : Prop where
  cell_eq : ∀ row column, s'.cell row column = s.cell row column
  row_eq : s'.row = s.row
  column_eq : s'.column = s.column

/-- Everything has been erased from a row on, in which the cursor now is, and nothing above. -/
structure Screen.ErasedFrom (s s' : Screen) (first : Nat) : Prop where
  vacant : s'.Vacant
  row_eq : s'.row = first
  sameAbove : s.SameAbove s' first

theorem Screen.ErasedFrom.trans {s s' s'' : Screen} {first low : Nat} (h : s.ErasedFrom s' first)
    (h' : s'.ErasedFrom s'' low) (hle : low ≤ first) : s.ErasedFrom s'' low :=
  ⟨h'.vacant, h'.row_eq, (h.sameAbove.mono hle).trans h'.sameAbove⟩

/-- Erasing a screen from two rows on makes a difference, if they are not the same. -/
theorem Screen.ErasedFrom.sameAs_iff {s s' s'' : Screen} {first low : Nat}
    (h : s.ErasedFrom s' first) (h' : s.ErasedFrom s'' low) : s'.SameAs s'' ↔ low = first := by
  constructor
  · intro hsame
    rw [← h.row_eq, ← h'.row_eq, hsame.row_eq]
  · rintro rfl
    refine ⟨fun row column => ?_, h'.row_eq.trans h.row_eq.symm,
      h'.vacant.column_eq.trans h.vacant.column_eq.symm⟩
    by_cases habove : row < low
    · rw [h'.sameAbove row column habove, h.sameAbove row column habove]
    · rw [h'.vacant.blankFrom row column (by have := h'.row_eq; omega),
        h.vacant.blankFrom row column (by have := h.row_eq; omega)]

/-- If a call writes text above the line, it consists of characters of one column. -/
def SessionCall.PrintsNarrow : SessionCall → Prop
  | .printAbove t => NarrowLines t
  | _ => True

instance : DecidablePred SessionCall.PrintsNarrow := fun c =>
  match c with
  | .printAbove t => inferInstanceAs (Decidable (NarrowLines t))
  | .feed | .hide | .reveal | .push _ => .isTrue trivial

namespace Session

variable {s : Session} {screen : Screen} {first top : Nat}

/-- The edit is on the screen, or it has been erased. -/
def Followed (s : Session) (screen : Screen) : Prop :=
  (∃ top, s.OnScreen screen top) ∨ s.Hidden screen

/-- The row from which on hiding erases the screen: that of the edit or, if the edit is erased, the
one in which the next drawing lands. -/
def BeginsAt (s : Session) (screen : Screen) (first : Nat) : Prop :=
  (∃ hints, (s.view hints).PlacedAt screen first) ∨
    screen.Vacant ∧ first = screen.row - (s.view true).climb

namespace Followed

variable (h : s.Followed screen)

include h

theorem cursorRow_eq (hmulti : s.editor.config.multiline = true) :
    s.drawState.cursorRow = (s.view true).cursorRow := by
  rcases h with ⟨top, honScreen⟩ | hhidden
  · exact honScreen.cursorRow_eq hmulti
  · exact hhidden.cursorRow_eq hmulti

theorem stands (hnarrow : s.Narrow) : ∃ first, s.Stands screen first ∧ s.BeginsAt screen first := by
  rcases h with ⟨top, honScreen⟩ | hhidden
  · exact ⟨top, honScreen.toStands, .inl honScreen.placed⟩
  · exact ⟨_, hhidden.stands hnarrow, .inr ⟨hhidden.vacant, rfl⟩⟩

/-- What a key leaves is on the screen or erased. -/
theorem of_redrawn {clears : Prop} {t : Session} {screen' : Screen}
    (hredrawn : Redrawn clears s screen first t screen') : t.Followed screen' := by
  cases hredrawn with
  | kept alike same =>
    subst same
    exact h.imp (fun ⟨top, honScreen⟩ => ⟨top, alike.onScreen honScreen⟩) alike.hidden
  | drawn honScreen same => exact .inl ⟨first, honScreen⟩
  | cleared request honScreen => exact .inl ⟨0, honScreen⟩

/-- Any call. -/
theorem leads_called (hterminal : s.isTerminal = true)
    (hmulti : s.editor.config.multiline = true) (hroom : s.HasRoom) {c : SessionCall}
    (hc : c.PrintsNarrow) (hbefore : s.Narrow) (hafter : (s.called c).Narrow) :
    ∃ screen', s.output.Leads screen (s.called c).output screen' ∧
      (s.called c).Followed screen' := by
  obtain ⟨first, hstands, -⟩ := h.stands hbefore
  cases c with
  | feed =>
    obtain ⟨screen', hleads, hredrawn⟩ := hstands.leads_feed hterminal hroom
      (fun hsingle => absurd (hsingle.symm.trans hmulti) Bool.false_ne_true) hbefore hafter
    exact ⟨screen', hleads, h.of_redrawn hredrawn⟩
  | hide =>
    obtain ⟨screen', hleads, hhidden, -⟩ := hstands.leads_hide hterminal h.cursorRow_eq
    exact ⟨screen', hleads, .inr hhidden⟩
  | reveal =>
    rcases h with ⟨top, honScreen⟩ | hhidden
    · obtain ⟨screen', hleads, honScreen', -⟩ := honScreen.leads_reveal hterminal hroom hbefore
      exact ⟨screen', hleads, .inl ⟨_, honScreen'⟩⟩
    · obtain ⟨screen', hleads, honScreen', -⟩ := hhidden.leads_reveal hterminal hroom hbefore
      exact ⟨screen', hleads, .inl ⟨_, honScreen'⟩⟩
  | printAbove t =>
    obtain ⟨screen', hleads, honScreen, -⟩ :=
      hstands.leads_printAbove hterminal h.cursorRow_eq hroom hbefore hc
    exact ⟨screen', hleads, .inl ⟨_, honScreen⟩⟩
  | push more =>
    have halike : s.ShowsAlike (s.called (.push more)) := ⟨rfl, rfl, rfl⟩
    exact ⟨screen, .refl _ _, h.imp (fun ⟨top, honScreen⟩ => ⟨top, halike.onScreen honScreen⟩)
      halike.hidden⟩

end Followed

theorem multiline_driven {editor : Editor} {mode : RawMode} {input : Input} {output : Output}
    {prompt : Text} (hstart : start editor mode input output prompt = .ok s)
    (hterminal : s.isTerminal = true) (hmulti : editor.config.multiline = true)
    (calls : Nat → SessionCall) (n : Nat) : (s.driven calls n).editor.config.multiline = true := by
  have hconfig : (s.driven calls n).editor.config = editor.config :=
    (congrArg SessionSettings.config (s.settings_driven calls n)).trans
      (settings_start hstart hterminal).2.1
  rw [hconfig, hmulti]

/-- **Any calls.** An edit over several rows is always on the screen or erased. -/
theorem followed_driven {editor : Editor} {mode : RawMode} {input : Input} {output : Output}
    {prompt : Text} (hstart : start editor mode input output prompt = .ok s)
    (hterminal : s.isTerminal = true) (hmulti : editor.config.multiline = true)
    (hroom : s.HasRoom) (hbelow : StartsBelow editor input output screen)
    {calls : Nat → SessionCall} {n : Nat} (hcalls : ∀ m < n, (calls m).PrintsNarrow)
    (hnarrow : ∀ m ≤ n, (s.driven calls m).Narrow) :
    ∃ screen', output.Leads screen (s.driven calls n).output screen' ∧
      (s.driven calls n).Followed screen' := by
  induction n with
  | zero =>
    obtain ⟨screen', hleads, honScreen, -⟩ :=
      leads_start hstart hterminal hbelow hroom (hnarrow 0 (Nat.le_refl 0))
    exact ⟨screen', hleads, .inl ⟨_, honScreen⟩⟩
  | succ n ih =>
    obtain ⟨screen₁, hleads₁, hfollowed₁⟩ :=
      ih (fun m hm => hcalls m (Nat.lt_succ_of_lt hm)) fun m hm => hnarrow m (Nat.le_succ_of_le hm)
    obtain ⟨screen₂, hleads₂, hfollowed₂⟩ := hfollowed₁.leads_called
      (isTerminal_driven hterminal calls n) (multiline_driven hstart hterminal hmulti calls n)
      (hasRoom_driven hroom calls n) (hcalls n (Nat.lt_succ_self n)) (hnarrow n (Nat.le_succ n))
      (hnarrow (n + 1) (Nat.le_refl _))
    exact ⟨screen₂, hleads₁.trans hleads₂, hfollowed₂⟩

/-! ### Hiding several times -/

/-- A session in which the edit has been hidden some times. -/
def hides (s : Session) (k : Nat) : Session := s.driven (fun _ => .hide) k

theorem shownLine_hides (s : Session) (k : Nat) : (s.hides k).shownLine = s.shownLine := by
  induction k with
  | zero => rfl
  | succ k ih => exact (shownLine_hide (s.hides k)).trans ih

theorem view_hides (s : Session) (k : Nat) (hints : Bool) :
    (s.hides k).view hints = s.view hints := by
  rw [view_eq, view_eq, shownLine_hides, hides, settings_driven]

theorem Narrow.hides (h : s.Narrow) (k : Nat) : (s.hides k).Narrow := by
  rw [Narrow, shownLine_hides, Session.hides, settings_driven]
  exact h

/-- **Hiding an edit that is erased.** Each time, what is erased begins higher up. -/
theorem Hidden.leads_hides (h : s.Hidden screen) (hterminal : s.isTerminal = true)
    (hnarrow : s.Narrow) (k : Nat) :
    ∃ screen', s.output.Leads screen (s.hides k).output screen' ∧ (s.hides k).Hidden screen' ∧
      screen.ErasedFrom screen' (screen.row - k * (s.view true).climb) := by
  induction k with
  | zero =>
    refine ⟨screen, .refl _ _, h, h.vacant, by omega, .refl _ _⟩
  | succ k ih =>
    obtain ⟨screen₁, hleads₁, hhidden₁, -, hrow₁, hsame₁⟩ := ih
    obtain ⟨screen₂, hleads₂, hhidden₂, hrow₂, hsame₂⟩ :=
      hhidden₁.leads_hide (isTerminal_driven hterminal _ k) (hnarrow.hides k)
    have hrows : screen₁.row - ((s.hides k).view true).climb =
        screen.row - (k + 1) * (s.view true).climb := by
      rw [view_hides, hrow₁, Nat.succ_mul]
      omega
    rw [hrows] at hrow₂ hsame₂
    refine ⟨screen₂, hleads₁.trans hleads₂, hhidden₂, hhidden₂.vacant, hrow₂, ?_⟩
    exact (hsame₁.mono (by rw [Nat.succ_mul]; omega)).trans hsame₂

private theorem hides_succ (s : Session) (k : Nat) : s.hides (k + 1) = s.hide.hides k := by
  induction k with
  | zero => rfl
  | succ k ih => exact congrArg hide ih

/-- **A key after hiding** that draws the line draws it over what is above, unless it clears the
screen. -/
theorem Hidden.leads_key (h : s.Hidden screen) (hterminal : s.isTerminal = true)
    (hmulti : s.editor.config.multiline = true) (hroom : s.HasRoom) (hbefore : s.Narrow)
    (hafter : s.feed.2.Narrow) (hkey : s.reading ≠ .key .clearScreen) :
    ∃ screen', s.output.Leads screen s.feed.2.output screen' ∧
      (screen' = screen ∨
        (∃ hints, (s.feed.2.view hints).PlacedAt screen' (screen.row - (s.view true).climb)) ∧
          screen.SameAbove screen' (screen.row - (s.view true).climb)) := by
  obtain ⟨screen', hleads, hredrawn⟩ := (h.stands hbefore).leads_feed hterminal hroom
    (fun hsingle => absurd (hsingle.symm.trans hmulti) Bool.false_ne_true) hbefore hafter
  refine ⟨screen', hleads, ?_⟩
  cases hredrawn with
  | kept alike same => exact .inl same
  | drawn honScreen same => exact .inr ⟨honScreen.placed, same⟩
  | cleared request honScreen => exact absurd request hkey

/-- What hiding makes of what a session shows, from the row `first` on in which the edit begins.
Each further time everything is erased from a row on that is higher up by as many rows as the cursor
was below the first row of the edit. A key that draws the line after it has been hidden once draws
it from the row on from which hiding it once more would erase. -/
structure HidesFrom (s : Session) (earlier : Output) (screen : Screen) (first : Nat) : Prop where
  begins : s.BeginsAt (s.replayed earlier screen) first
  erased (k : Nat) : (s.hides (k + 1)).output.Accepts →
    (s.replayed earlier screen).ErasedFrom ((s.hides (k + 1)).replayed earlier screen)
      (first - k * (s.view true).climb)
  same_iff (k : Nat) : (s.hides (k + 1)).output.Accepts →
    ((s.hide.replayed earlier screen).SameAs ((s.hides (k + 1)).replayed earlier screen) ↔
      k = 0 ∨ (s.view true).climb = 0 ∨ first = 0)
  key : s.hide.reading ≠ .key .clearScreen → s.hide.feed.2.Narrow →
    s.hide.feed.2.output.Accepts →
      s.hide.feed.2.replayed earlier screen = s.hide.replayed earlier screen ∨
        (∃ hints, (s.hide.feed.2.view hints).PlacedAt (s.hide.feed.2.replayed earlier screen)
            (first - (s.view true).climb)) ∧
          (s.replayed earlier screen).SameAbove (s.hide.feed.2.replayed earlier screen)
            (first - (s.view true).climb)

theorem Followed.hidesFrom (h : s.Followed screen) (hterminal : s.isTerminal = true)
    (hmulti : s.editor.config.multiline = true) (hroom : s.HasRoom) (hnarrow : s.Narrow)
    {earlier : Output} {initial : Screen} (hleads : earlier.Leads initial s.output screen)
    (hreader : initial.reader = StreamParser.start) (haccepts : s.output.Accepts) :
    ∃ first, s.HidesFrom earlier initial first := by
  obtain ⟨first, hstands, hbegins⟩ := h.stands hnarrow
  obtain ⟨once, honce, hhidden, hrow, hsame⟩ := hstands.leads_hide hterminal h.cursorRow_eq
  have honce' := hleads.trans honce
  have herased : screen.ErasedFrom once first := ⟨hhidden.vacant, hrow, hsame⟩
  have hview : s.hide.view true = s.view true := view_hides s 1 true
  have hnarrow' : s.hide.Narrow := hnarrow.hides 1
  have hterminal' : s.hide.isTerminal = true := isTerminal_driven hterminal (fun _ => .hide) 1
  refine ⟨first, replayed_eq hleads haccepts hreader ▸ hbegins, fun k haccepts' => ?_,
    fun k haccepts' => ?_, fun hkey hafter haccepts' => ?_⟩
  · obtain ⟨after, hleads', -, herased'⟩ := hhidden.leads_hides hterminal' hnarrow' k
    rw [← hides_succ] at hleads'
    rw [hrow, hview] at herased'
    rw [replayed_eq (honce'.trans hleads') haccepts' hreader, replayed_eq hleads haccepts hreader]
    exact herased.trans herased' (Nat.sub_le _ _)
  · obtain ⟨after, hleads', -, herased'⟩ := hhidden.leads_hides hterminal' hnarrow' k
    rw [← hides_succ] at hleads'
    rw [hrow, hview] at herased'
    rw [replayed_eq (honce'.trans hleads') haccepts' hreader,
      replayed_eq honce' (hleads'.accepts haccepts') hreader,
      herased.sameAs_iff (herased.trans herased' (Nat.sub_le _ _)), ← or_assoc, ← Nat.mul_eq_zero]
    omega
  · have hconfig := congrArg (fun p => p.config.multiline) s.settings_hide
    obtain ⟨after, hleads', hafter'⟩ := hhidden.leads_key hterminal' (hconfig.trans hmulti)
      (hroom.of_settings s.settings_hide) hnarrow' hafter hkey
    rw [hrow, hview] at hafter'
    rw [replayed_eq (honce'.trans hleads') haccepts' hreader, replayed_eq hleads haccepts hreader,
      replayed_eq honce' (hleads'.accepts haccepts') hreader]
    exact hafter'.imp_right fun ⟨hplaced, habove⟩ =>
      ⟨hplaced, (hsame.mono (Nat.sub_le _ _)).trans habove⟩

/-- **What hiding does to what is above the edit.** After any calls, hiding an edit over several
rows erases the screen from the row on in which the edit begins. Hiding it more than once is the
same if and only if the cursor was in the first row of the edit, or there is no row above. -/
theorem hidesFrom_driven {editor : Editor} {mode : RawMode} {input : Input} {output : Output}
    {prompt : Text} (hstart : start editor mode input output prompt = .ok s)
    (hterminal : s.isTerminal = true) (hmulti : editor.config.multiline = true)
    (hroom : s.HasRoom) (hbelow : StartsBelow editor input output screen)
    {calls : Nat → SessionCall} {n : Nat} (hcalls : ∀ m < n, (calls m).PrintsNarrow)
    (hnarrow : ∀ m ≤ n, (s.driven calls m).Narrow) (haccepts : (s.driven calls n).output.Accepts) :
    ∃ first, (s.driven calls n).HidesFrom output screen first := by
  obtain ⟨screen', hleads, hfollowed⟩ :=
    followed_driven hstart hterminal hmulti hroom hbelow hcalls hnarrow
  exact hfollowed.hidesFrom (isTerminal_driven hterminal calls n)
    (multiline_driven hstart hterminal hmulti calls n) (hasRoom_driven hroom calls n)
    (hnarrow n (Nat.le_refl n)) hleads hbelow.reader_eq haccepts

/-- Keys that type a line which takes two rows of four columns behind a prompt of two, and then
move the cursor to the left. -/
def hiddenKeys : List UInt8 := Utf8.encode ['a', 'b', 'c'] ++ [0x02]

/-- A line is written above the edit when it has been typed. -/
def hiddenCalls (m : Nat) : SessionCall := if m = 3 then .printAbove ['l', 'o', 'g'] else .feed

/-- Below a line that was written above it, the edit begins in the second row of the screen and has
its cursor in its own second row. -/
theorem hidesFrom_driven_logged : ∃ s,
    start (.ofConfig ⟨true, false, 80⟩ (.ofColumns 4)) .ofPipe (.ofBytes hiddenKeys true false none)
      (.fresh none) ['>', ' '] = .ok s ∧
    (∃ first, (s.driven hiddenCalls 4).HidesFrom (.fresh none) (.blank 4) first ∧ first = 1) ∧
    ((s.driven hiddenCalls 4).view true).climb = 1 := by
  obtain ⟨s, hstart, hterminal, hroom, hcalls, hdraws, haccepts, hrow, hclimb⟩ : ∃ s,
      start (.ofConfig ⟨true, false, 80⟩ (.ofColumns 4)) .ofPipe
        (.ofBytes hiddenKeys true false none) (.fresh none) ['>', ' '] = .ok s ∧
      s.isTerminal = true ∧ s.HasRoom ∧ (∀ m < 4, (hiddenCalls m).PrintsNarrow) ∧
      (∀ m ≤ 4, (s.driven hiddenCalls m).PlainlyNarrow) ∧
      ((s.driven hiddenCalls 4).output.Accepts ∧
        ((s.driven hiddenCalls 4).hides 1).output.Accepts) ∧
      (((s.driven hiddenCalls 4).hides 1).replayed (.fresh none) (.blank 4)).row = 1 ∧
      ((s.driven hiddenCalls 4).view true).climb = 1 :=
    ⟨_, rfl, rfl, by decide, by decide, by decide +kernel, by decide +kernel, by decide +kernel,
      by decide +kernel⟩
  obtain ⟨first, hhides⟩ := hidesFrom_driven hstart hterminal rfl hroom
    (startsBlank_blank (by decide) rfl _ _).startsBelow hcalls
    (fun m hm => (hdraws m hm).narrow) haccepts.1
  have hfirst := (hhides.erased 0 haccepts.2).row_eq
  rw [hrow, Nat.zero_mul] at hfirst
  exact ⟨s, hstart, ⟨first, hhides, hfirst.symm⟩, hclimb⟩

/-- So hiding an edit twice may erase what is above it. -/
theorem exists_hide_above : ¬∀ (editor : Editor) (mode : RawMode) (input : Input)
    (output : Output) (prompt : Text) (s : Session) (screen : Screen) (calls : Nat → SessionCall)
    (n k : Nat), start editor mode input output prompt = .ok s → s.isTerminal = true →
      editor.config.multiline = true → s.HasRoom → StartsBelow editor input output screen →
      (∀ m < n, (calls m).PrintsNarrow) → (∀ m ≤ n, (s.driven calls m).Narrow) →
      ((s.driven calls n).hides (k + 1)).output.Accepts →
        ((s.driven calls n).hide.replayed output screen).SameAs
          (((s.driven calls n).hides (k + 1)).replayed output screen) := by
  intro h
  obtain ⟨s, hstart, hterminal, hroom, hcalls, hdraws, haccepts, honce, htwice⟩ : ∃ s,
      start (.ofConfig ⟨true, false, 80⟩ (.ofColumns 4)) .ofPipe
        (.ofBytes hiddenKeys true false none) (.fresh none) ['>', ' '] = .ok s ∧
      s.isTerminal = true ∧ s.HasRoom ∧ (∀ m < 4, (hiddenCalls m).PrintsNarrow) ∧
      (∀ m ≤ 4, (s.driven hiddenCalls m).PlainlyNarrow) ∧
      ((s.driven hiddenCalls 4).hides 2).output.Accepts ∧
      ((s.driven hiddenCalls 4).hide.replayed (.fresh none) (.blank 4)).cell 0 0 = .glyph ['l'] ∧
      (((s.driven hiddenCalls 4).hides 2).replayed (.fresh none) (.blank 4)).cell 0 0 = .blank :=
    ⟨_, rfl, rfl, by decide, by decide, by decide +kernel, by decide +kernel, by decide +kernel,
      by decide +kernel⟩
  have hsame := h _ _ _ _ _ s _ hiddenCalls 4 1 hstart hterminal rfl hroom
    (startsBlank_blank (by decide) rfl _ _).startsBelow hcalls
    (fun m hm => (hdraws m hm).narrow) haccepts
  have hcell := hsame.cell_eq 0 0
  rw [honce, htwice] at hcell
  exact Cell.noConfusion hcell

end Session

end Typeline
