import Typeline.Proofs.Text.OwnClusters
import Typeline.Proofs.Text.Parts

/-!
# What a character adds in front of others

The columns of a sequence are found from its last character to the first. What is said here about
one step of that goes for every character in front of every sequel, and leads to two facts about
whole sequences.

Columns that have been counted are taken back only where letters share a column or flags end. The
columns that a sequel promises are never taken back: whatever a character does, the columns that
it adds and those that were promised to it cover what the sequel before it promises. A wide
character in front of a sequel makes it two columns at least.

In a steady sequence no character changes how another one is shown, and so each adds its own
columns.

## Main definitions

* `LigatureEnd.isFirst`, `LigatureEnd.isLast` : the characters that share a column.
* `Sequel.promise` : the columns that a sequel has for certain.
* `KeepsPromise` : what one step does.
* `Steady` : a sequence in which every character is shown as it is by itself.

## Main results

* `keepsPromise_widthBefore` : one character in front of a sequel.
* `promise_sequenceFold` : a sequence is as wide as its sequel promises.
* `Steady.sequenceFold_eq` : the columns of a steady sequence.
-/

namespace Typeline

/-! ### Characters in the tables -/

/-- What holds of all characters in some ranges of codes. -/
theorem of_ranges (p : Char → Prop) (ranges : List (Nat × Nat)) {c : Char}
    (htable : ∀ range ∈ ranges, ∀ n < range.2 + 1 - range.1, p (Char.ofNat (range.1 + n)))
    (hc : ∃ range ∈ ranges, range.1 ≤ c.toNat ∧ c.toNat ≤ range.2) : p c := by
  obtain ⟨range, hrange, hfirst, hlast⟩ := hc
  have hp := htable range hrange (c.toNat - range.1) (by omega)
  rwa [Nat.add_sub_cancel' hfirst, Char.ofNat_toNat] at hp

theorem glyphWidth_of_isRegional {c : Char} (h : isRegional c = true) : glyphWidth c = 1 := by
  refine of_ranges (fun c => glyphWidth c = 1) [(0x1F1E6, 0x1F1FF)] (by decide +kernel) ?_
  simpa [isRegional] using h

private theorem glyphWidth_of_emoji {c : Char} (h : WidthTable.emoji.contains c = true)
    (hregional : ¬isRegional c = true) : glyphWidth c = 2 :=
  (of_ranges (fun c => isRegional c = true ∨ glyphWidth c = 2) _ (by decide +kernel)
    (RangeSet.exists_of_contains h)).resolve_left hregional

private theorem glyphWidth_of_isEmojiModifier {c : Char} (h : isEmojiModifier c = true) :
    glyphWidth c = 2 := by
  refine of_ranges (fun c => glyphWidth c = 2) [(0x1F3FB, 0x1F3FF)] (by decide +kernel) ?_
  simpa [isEmojiModifier] using h

private theorem glyphWidth_of_isKhmerSubscript {c : Char} (h : isKhmerSubscript c = true) :
    glyphWidth c = 1 := by
  refine of_ranges (fun c => isKhmerSubscript c = true → glyphWidth c = 1) [(0x1780, 0x17AF)]
    (by decide +kernel) ?_ h
  simp only [isKhmerSubscript, Bool.or_eq_true, Bool.and_eq_true, decide_eq_true_eq,
    beq_iff_eq] at h
  simp only [List.mem_singleton, exists_eq_left]
  omega

private theorem glyphWidth_of_isLigatureTransparent {c : Char}
    (h : isLigatureTransparent c = true) : glyphWidth c = 0 := by
  refine of_ranges (fun c => glyphWidth c = 0) [(0x34F, 0x34F), (0x17B4, 0x17B5),
    (0x180B, 0x180D), (0x180F, 0x180F), (0x200D, 0x200D), (0xFE00, 0xFE0F), (0xE0100, 0xE01EF)]
    (by decide +kernel) ?_
  simp only [isLigatureTransparent, Bool.or_eq_true, Bool.and_eq_true, decide_eq_true_eq,
    beq_iff_eq] at h
  simp only [List.mem_cons, List.not_mem_nil, or_false, exists_eq_or_imp, exists_eq_left]
  omega

/-! ### Ligatures -/

namespace LigatureEnd

/-- Whether a character can be the last one of a ligature. -/
def isLast : LigatureEnd → Char → Bool
  | .alef, c => isAlef c
  | .lamed, c => c.toNat == 0x5DC
  | .subscript, c => isKhmerSubscript c
  | .ya, c => c.toNat == 0x1A10
  | .tifinagh, c => isTifinagh c
  | .tone, c => c.toNat == 0xA4FC || c.toNat == 0xA4FD
  | .orkhonI, c => c.toNat == 0x10C03
  | .kiratE, c | .kiratAi, c => isKiratVowel c
  | .vowelYa, _ | .joinedTifinagh, _ => false

/-- Whether a character can share its column with the letters of a ligature behind it, or join
them. -/
def isFirst : LigatureEnd → Char → Bool
  | .alef, c => isLam c
  | .lamed, c => c.toNat == 0x5D0
  | .subscript, c => c.toNat == 0x17D2
  | .ya, c => c.toNat == 0x1A17
  | .vowelYa, c => c.toNat == 0x1A15
  | .tifinagh, c | .joinedTifinagh, c => isTifinagh c || c.toNat == 0x2D7F
  | .tone, c => 0xA4F8 ≤ c.toNat && c.toNat ≤ 0xA4FB
  | .orkhonI, c => c.toNat == 0x10C32
  | .kiratE, c | .kiratAi, c => isKiratVowel c

/-- All of them. -/
def all : List LigatureEnd :=
  [.alef, .lamed, .subscript, .ya, .vowelYa, .tifinagh, .joinedTifinagh, .tone, .orkhonI, .kiratE,
    .kiratAi]

private theorem mem_all (l : LigatureEnd) : l ∈ all := by
  cases l <;> decide

/-- Letters that can share a column with the ones behind them are narrow. -/
theorem glyphWidth_le_one_of_isFirst {l : LigatureEnd} {c : Char} (h : l.isFirst c = true) :
    glyphWidth c ≤ 1 := by
  refine of_ranges (fun c => glyphWidth c ≤ 1) [(0x5D0, 0x5D0), (0x644, 0x644),
    (0x6B5, 0x6B8), (0x76A, 0x76A), (0x8A6, 0x8A6), (0x8C7, 0x8C7), (0x17D2, 0x17D2),
    (0x1A15, 0x1A17), (0x2D31, 0x2D7F), (0xA4F8, 0xA4FB), (0x10C32, 0x10C32), (0x16D63, 0x16D6A)]
    (by decide +kernel) ?_
  simp only [List.mem_cons, List.not_mem_nil, or_false, exists_eq_or_imp, exists_eq_left]
  cases l <;>
    simp only [isFirst, isLam, isTifinagh, isKiratVowel, Bool.or_eq_true, Bool.and_eq_true,
      decide_eq_true_eq, beq_iff_eq] at h <;>
    omega

end LigatureEnd

/-- The columns that a sequel has for certain, whatever characters before it take back. -/
def Sequel.promise : Sequel → Int
  | .ligature .subscript _ _ | .ligature .joinedTifinagh _ _ => 1
  | .regional several => if several then 2 else 1
  | .modifier | .emoji | .joinedEmoji _ | .joinedKeycap _ | .joinedTag _ _ => 2
  | .joinedRegional => 3
  | .joinedRegionals even => if even then 2 else 3
  | _ => 0

namespace Sequel

theorem promise_nonneg (s : Sequel) : 0 ≤ s.promise := by
  unfold promise
  split <;> (try split) <;> omega

private theorem promise_unselect_le (s : Sequel) : s.unselect.promise ≤ s.promise := by
  have h := s.promise_nonneg
  unfold unselect
  split
  · cases ‹LigatureEnd› <;> exact Int.le_refl _
  all_goals first | exact h | exact Int.le_refl _

private theorem promise_selectEmoji_le (s : Sequel) : s.selectEmoji.promise ≤ s.promise := by
  have h := s.promise_nonneg
  unfold selectEmoji
  split
  · cases ‹LigatureEnd› <;> exact Int.le_refl _
  all_goals first | exact h | exact Int.le_refl _

private theorem promise_selectText_le (s : Sequel) : s.selectText.promise ≤ s.promise := by
  have h := s.promise_nonneg
  unfold selectText
  split
  · cases ‹LigatureEnd› <;> exact Int.le_refl _
  · exact h

private theorem selector?_unselect (s : Sequel) : s.unselect.selector? = none := by
  cases s with
  | joinedEmoji selected => cases selected <;> rfl
  | joinedKeycap selected => cases selected <;> rfl
  | _ => rfl

private theorem selector?_selectEmoji (s : Sequel) : s.selectEmoji.selector? = some .emoji := by
  unfold selectEmoji
  split <;> rfl

theorem ne_text_of_none {s : Sequel} (h : s.selector? = none) : s.selector? ≠ some .text := by
  simp [h]

end Sequel

/-- What a character in front of letters that can share its column does. -/
theorem widthBeforeLigature_cases {c : Char} {letter : LigatureEnd} {joined : Bool}
    {r : Int × Sequel} (h : widthBeforeLigature c letter joined = some r) :
    (glyphWidth c = 0 ∧ ∃ joined', (joined' = joined ∨ c = joiner) ∧
        r = (0, .ligature letter joined' none)) ∨
      (letter.isFirst c = true ∧ r.2.selector? = none ∧
        ∀ s, r.2.promise ≤ (Sequel.ligature letter joined s).promise + r.1) := by
  unfold widthBeforeLigature at h
  by_cases hjoiner : c = joiner
  · rw [if_pos hjoiner] at h
    obtain rfl := Option.some.inj h
    exact Or.inl ⟨by rw [hjoiner]; decide +kernel, true, Or.inr hjoiner, rfl⟩
  · rw [if_neg hjoiner] at h
    by_cases htransparent : isLigatureTransparent c = true
    · rw [if_pos htransparent] at h
      obtain rfl := Option.some.inj h
      exact Or.inl ⟨glyphWidth_of_isLigatureTransparent htransparent, joined, Or.inl rfl, rfl⟩
    · rw [if_neg htransparent] at h
      split at h <;> repeat' split at h
      all_goals cases h
      case h_1.isFalse.isTrue harabic =>
        rw [isArabicTransparent, Bool.and_eq_true, beq_iff_eq] at harabic
        exact Or.inl ⟨harabic.1, false, Or.inl rfl, rfl⟩
      all_goals refine Or.inr ⟨?_, rfl, fun s => by simp [Sequel.promise]⟩
      all_goals simp_all [LigatureEnd.isFirst, isKiratVowel]
      case h_10.isTrue hc => omega

/-- What a character may be by itself. -/
theorem widthAlone_induction {p : Int × Sequel → Prop} (c : Char)
    (letter : ∀ l : LigatureEnd, l.isLast c = true → p (glyphWidth c, .ligature l false none))
    (selector : ∀ s : Selector, c ∈ ['\uFE0E', '\uFE0F', '\uFE01'] → (s = .text → c = '\uFE0E') →
      p (glyphWidth c, .selector s))
    (regional : isRegional c = true → p (glyphWidth c, .regional false))
    (modifier : isEmojiModifier c = true → p (glyphWidth c, .modifier))
    (emoji : WidthTable.emoji.contains c = true → ¬isRegional c = true → p (glyphWidth c, .emoji))
    (plain : p (glyphWidth c, .plain)) : p (widthAlone c) := by
  have hcode {n : Nat} {d : Char} (hn : c.toNat = n) (hd : d.toNat = n) : c = d :=
    Char.toNat_inj.mp (hn.trans hd.symm)
  unfold widthAlone
  refine iteInduction (fun h => letter _ (by simpa [LigatureEnd.isLast] using h)) fun _ => ?_
  refine iteInduction (fun h => letter _ h) fun _ => ?_
  refine iteInduction (fun h => letter _ h) fun _ => ?_
  refine iteInduction (fun h => letter _ (by simpa [LigatureEnd.isLast] using h)) fun _ => ?_
  refine iteInduction (fun h => letter _ h) fun _ => ?_
  refine iteInduction (fun h => letter _ (by simpa [LigatureEnd.isLast] using h)) fun _ => ?_
  refine iteInduction (fun h => letter _ (by simpa [LigatureEnd.isLast] using h)) fun _ => ?_
  refine iteInduction (fun h => letter _ (by simp [LigatureEnd.isLast, isKiratVowel, h]))
    fun _ => ?_
  refine iteInduction (fun h => letter _ (by simp [LigatureEnd.isLast, isKiratVowel, h]))
    fun _ => ?_
  refine iteInduction (fun h => selector _ (by simp [hcode h (d := '\uFE0E') rfl])
    fun _ => hcode h rfl) fun _ => ?_
  refine iteInduction (fun h => selector _ (by simp [hcode h (d := '\uFE0F') rfl])
    fun hs => absurd hs (by decide)) fun _ => ?_
  refine iteInduction (fun h => selector _ (by simp [hcode h (d := '\uFE01') rfl])
    fun hs => absurd hs (by decide)) fun _ => ?_
  refine iteInduction regional fun hregional => ?_
  refine iteInduction modifier fun _ => ?_
  exact iteInduction (fun h => emoji h hregional) fun _ => plain


theorem two_le_glyphWidth {c : Char} (h : charWidth c = 2) : 2 ≤ glyphWidth c := by
  unfold charWidth at h
  split at h <;> omega

/-- What a character in front of a sequel does: what the sequel before it promises is covered, a
text selector is not made up, and a wide character leads to two columns, unless a text selector
makes it narrow. -/
structure KeepsPromise (c : Char) (s : Sequel) (r : Int × Sequel) : Prop where
  promise_le : r.2.promise ≤ s.promise + r.1
  eq_of_text : r.2.selector? = some .text → c = '\uFE0E'
  two_le : charWidth c = 2 → s.selector? ≠ some .text → 2 ≤ s.promise + r.1

namespace KeepsPromise

variable {c : Char} {s : Sequel} {r : Int × Sequel}

theorem mono {s' : Sequel} (h : KeepsPromise c s' r) (hpromise : s'.promise ≤ s.promise)
    (htext : s'.selector? = some .text → s.selector? = some .text) : KeepsPromise c s r where
  promise_le := Int.le_trans h.promise_le (Int.add_le_add_right hpromise _)
  eq_of_text := h.eq_of_text
  two_le hwide hother := Int.le_trans (h.two_le hwide fun htext' => hother (htext htext'))
    (Int.add_le_add_right hpromise _)

/-- A character that adds all columns that the new sequel promises. -/
theorem of_le (hpromise : r.2.promise ≤ r.1) (htext : r.2.selector? = some .text → c = '\uFE0E')
    (hwide : charWidth c = 2 → s.selector? ≠ some .text → 2 ≤ r.1) : KeepsPromise c s r where
  promise_le := by
    have := s.promise_nonneg
    omega
  eq_of_text := htext
  two_le hc hs := by
    have := s.promise_nonneg
    have := hwide hc hs
    omega

/-- The same if the new sequel has no selector in front. -/
theorem of_none (hnone : r.2.selector? = none) (hpromise : r.2.promise ≤ r.1)
    (hwide : charWidth c = 2 → s.selector? ≠ some .text → 2 ≤ r.1) : KeepsPromise c s r :=
  of_le hpromise (fun htext => absurd htext (Sequel.ne_text_of_none hnone)) hwide

theorem alone (c : Char) (s : Sequel) : KeepsPromise c s (widthAlone c) := by
  have hboth : (widthAlone c).2.promise ≤ (widthAlone c).1 ∧
      ((widthAlone c).2.selector? = some .text → c = '\uFE0E') := by
    refine widthAlone_induction c (p := fun r => r.2.promise ≤ r.1 ∧
      (r.2.selector? = some .text → c = '\uFE0E')) ?_ ?_ ?_ ?_ ?_ ?_
    · intro l hl
      refine ⟨?_, fun h => absurd h (Sequel.ne_text_of_none rfl)⟩
      cases l
      case subscript =>
        rw [glyphWidth_of_isKhmerSubscript hl]
        exact Int.le_refl 1
      case joinedTifinagh => exact absurd hl Bool.false_ne_true
      all_goals exact Int.natCast_nonneg _
    · exact fun l _ hl => ⟨Int.natCast_nonneg _, fun h => hl (Option.some.inj h)⟩
    · intro h
      rw [glyphWidth_of_isRegional h]
      exact ⟨Int.le_refl 1, fun h => absurd h (Sequel.ne_text_of_none rfl)⟩
    · intro h
      rw [glyphWidth_of_isEmojiModifier h]
      exact ⟨Int.le_refl 2, fun h => absurd h (Sequel.ne_text_of_none rfl)⟩
    · intro h hregional
      rw [glyphWidth_of_emoji h hregional]
      exact ⟨Int.le_refl 2, fun h => absurd h (Sequel.ne_text_of_none rfl)⟩
    · exact ⟨Int.natCast_nonneg _, fun h => absurd h (Sequel.ne_text_of_none rfl)⟩
  refine of_le hboth.1 hboth.2 fun hwide _ => ?_
  rw [widthAlone_fst]
  exact Int.ofNat_le.mpr (two_le_glyphWidth hwide)

/-- A character that the emoji selector chooses as an emoji. -/
theorem selected (c : Char) (s : Sequel) :
    KeepsPromise c s (if s.isJoined then 0 else 2, .emoji) := by
  have htwo : 2 ≤ s.promise + (if s.isJoined then 0 else 2) := by
    have := s.promise_nonneg
    split
    · next hjoined =>
      unfold Sequel.isJoined at hjoined
      split at hjoined
      · exact Int.le_refl 2
      · exact Int.le_refl 2
      · exact absurd hjoined Bool.false_ne_true
    · omega
  exact ⟨htwo, fun htext => absurd htext (Sequel.ne_text_of_none rfl), fun _ _ => htwo⟩

/-- The characters up to the no-break space are narrow. -/
theorem of_low (hlow : c.toNat ≤ 0xA0) (hnone : r.2.selector? = none)
    (hpromise : r.2.promise ≤ r.1) : KeepsPromise c s r := by
  refine of_none hnone hpromise fun hwide => ?_
  have := two_le_glyphWidth hwide
  rw [glyphWidth, if_pos hlow] at this
  omega

theorem selectEmoji (s : Sequel) : KeepsPromise '\uFE0F' s (0, s.selectEmoji) where
  promise_le := (Int.add_zero s.promise).symm ▸ s.promise_selectEmoji_le
  eq_of_text h := absurd (s.selector?_selectEmoji.symm.trans h) (by decide)
  two_le hwide := absurd hwide (by decide +kernel)

theorem selectText (s : Sequel) : KeepsPromise '\uFE0E' s (0, s.selectText) where
  promise_le := (Int.add_zero s.promise).symm ▸ s.promise_selectText_le
  eq_of_text _ := rfl
  two_le hwide := absurd hwide (by decide +kernel)

private theorem of_ligature {letter : LigatureEnd} {joined : Bool} {selected : Option Selector}
    (h : widthBeforeLigature c letter joined = some r) :
    KeepsPromise c (.ligature letter joined selected) r := by
  rcases widthBeforeLigature_cases h with ⟨hglyph, joined', -, rfl⟩ | ⟨hfirst, hnone, hpromise⟩
  · refine ⟨?_, fun htext => absurd htext (Sequel.ne_text_of_none rfl), fun hwide => ?_⟩
    · cases letter <;> exact Int.le_refl _
    · have := two_le_glyphWidth hwide
      omega
  · refine ⟨hpromise selected, fun htext => absurd htext (Sequel.ne_text_of_none hnone),
      fun hwide => ?_⟩
    have := two_le_glyphWidth hwide
    have := LigatureEnd.glyphWidth_le_one_of_isFirst hfirst
    omega

private theorem of_emoji (h : widthBeforeEmoji c s = some r) : KeepsPromise c s r := by
  suffices hall : r.2.selector? = none ∧ r.2.promise ≤ s.promise + r.1 ∧ 2 ≤ s.promise + r.1 from
    ⟨hall.2.1, fun htext => absurd htext (Sequel.ne_text_of_none hall.1), fun _ _ => hall.2.2⟩
  unfold widthBeforeEmoji at h
  split at h <;> repeat' split at h
  all_goals cases h
  case h_2.isTrue several _ => cases several <;> simp [Sequel.selector?, Sequel.promise]
  case h_6.isTrue even _ => cases even <;> simp [Sequel.selector?, Sequel.promise]
  all_goals simp_all [Sequel.selector?, Sequel.promise]

theorem getD {found : Option (Int × Sequel)} (h : ∀ r, found = some r → KeepsPromise c s r) :
    KeepsPromise c s (found.getD (widthAlone c)) := by
  cases found with
  | none => exact alone c s
  | some r => exact h r rfl

end KeepsPromise

/-- **One character in front of a sequel.** -/
theorem keepsPromise_widthBefore (c : Char) (s : Sequel) : KeepsPromise c s (widthBefore c s) := by
  unfold widthBefore
  by_cases hselected : s.selector? = some .emoji ∧ isEmojiSelectable c = true
  · rw [if_pos hselected]
    exact .selected c s
  rw [if_neg hselected]
  -- A selector that has found nothing to select is left out; that promises no more.
  have hunselected (u : Sequel) : u.unselect.selector? ≠ some .text :=
    Sequel.ne_text_of_none u.selector?_unselect
  have hpromise : (if s.selector? = some .emoji then s.unselect else s).promise ≤ s.promise := by
    split
    · exact s.promise_unselect_le
    · exact Int.le_refl _
  have htext : (if s.selector? = some .emoji then s.unselect else s).selector? = some .text →
      s.selector? = some .text := by
    split
    · exact fun h => absurd h (hunselected s)
    · exact id
  refine KeepsPromise.mono ?_ hpromise htext
  generalize (if s.selector? = some .emoji then s.unselect else s) = next
  dsimp only
  by_cases hlow : c.toNat ≤ 0xA0
  · rw [if_pos hlow]
    split
    · exact .of_low hlow rfl (by decide)
    · split
      · exact .of_low hlow rfl (by decide)
      · exact .of_low hlow rfl (by decide)
  rw [if_neg hlow]
  by_cases hplain : next = .plain
  · rw [if_pos hplain]
    exact .alone c next
  rw [if_neg hplain]
  by_cases hemoji : c = '\uFE0F'
  · rw [if_pos hemoji, hemoji]
    exact .selectEmoji next
  rw [if_neg hemoji]
  by_cases hnarrowed : c = '\uFE0E'
  · rw [if_pos hnarrowed, hnarrowed]
    exact .selectText next
  rw [if_neg hnarrowed]
  by_cases hselectsText : next.selector? = some .text ∧ isTextSelectable c = true
  · rw [if_pos hselectsText]
    exact .of_none rfl (by decide) fun _ h => absurd hselectsText.1 h
  rw [if_neg hselectsText]
  by_cases hquotation : next.selector? = some .wide ∧ isQuotationMark c = true
  · rw [if_pos hquotation]
    exact .of_none rfl (by decide) fun _ _ => Int.le_refl 2
  rw [if_neg hquotation]
  suffices hstep : KeepsPromise c next.unselect _ from
    hstep.mono next.promise_unselect_le fun h => absurd h (hunselected next)
  refine .getD fun r hfound => ?_
  split at hfound
  · next hligature => exact hligature ▸ .of_ligature hfound
  · exact .of_emoji hfound

theorem sequenceFold_cons (c : Char) (t : Text) : sequenceFold (c :: t) =
    ((sequenceFold t).1 + (widthBefore c (sequenceFold t).2).1,
      (widthBefore c (sequenceFold t).2).2) := rfl

/-- A sequence is as wide as its sequel promises. -/
theorem promise_sequenceFold (t : Text) : (sequenceFold t).2.promise ≤ (sequenceFold t).1 := by
  induction t with
  | nil => exact Int.le_refl 0
  | cons c t ih =>
    have hstep := (keepsPromise_widthBefore c (sequenceFold t).2).promise_le
    rw [sequenceFold_cons]
    dsimp only
    omega

theorem head?_of_text {t : Text} (h : (sequenceFold t).2.selector? = some .text) :
    t.head? = some '\uFE0E' := by
  cases t with
  | nil => exact absurd h (Sequel.ne_text_of_none rfl)
  | cons c t => rw [(keepsPromise_widthBefore c (sequenceFold t).2).eq_of_text h, List.head?_cons]

/-! ### Steady sequences -/

/-- Whether a character changes how its neighbours are shown. -/
def isShaper (c : Char) : Bool :=
  c == joiner || c == '\uFE0E' || c == '\uFE0F' || c == '\uFE01' || isEmojiModifier c

/-- Whether two characters can share a column. -/
def sharesColumn (c d : Char) : Bool :=
  LigatureEnd.all.any fun l => l.isFirst c && l.isLast d

private theorem sharesColumn_of_letter {l : LigatureEnd} {c d : Char} (hc : l.isFirst c = true)
    (hd : l.isLast d = true) : sharesColumn c d = true :=
  List.any_eq_true.mpr ⟨l, l.mem_all, by rw [hc, hd]; rfl⟩

/-- A sequence in which every character is shown as it is by itself. -/
structure Steady (t : Text) : Prop where
  calm : ∀ c ∈ t, isControl c = false ∧ isShaper c = false
  apart : t.Pairwise fun c d => sharesColumn c d = false

private theorem steady_iff {t : Text} : Steady t ↔
    t.all (fun c => !isControl c && !isShaper c) = true ∧
      t.Pairwise fun c d => sharesColumn c d = false := by
  simp only [List.all_eq_true, Bool.and_eq_true, Bool.not_eq_true']
  exact ⟨fun h => ⟨h.calm, h.apart⟩, fun h => ⟨h.1, h.2⟩⟩

instance (t : Text) : Decidable (Steady t) := decidable_of_iff _ steady_iff.symm

/-- What the characters of a steady sequence offer to the one before them. -/
inductive Offers (t : Text) : Sequel → Prop
  | plain : Offers t .plain
  | emoji : Offers t .emoji
  | regional (several : Bool) : Offers t (.regional several)
  | ligature {l : LigatureEnd} {d : Char} (hmem : d ∈ t) (hlast : l.isLast d = true) :
      Offers t (.ligature l false none)

theorem Offers.selector?_eq_none {t : Text} {s : Sequel} (h : Offers t s) : s.selector? = none := by
  cases h <;> rfl

theorem Offers.unselect_eq {t : Text} {s : Sequel} (h : Offers t s) : s.unselect = s := by
  cases h <;> rfl

private theorem offers_widthAlone {c : Char} (hc : isShaper c = false) (t : Text) :
    Offers (c :: t) (widthAlone c).2 := by
  refine widthAlone_induction c (p := fun r => Offers (c :: t) r.2)
    (fun l hl => .ligature List.mem_cons_self hl) (fun s hs _ => ?_) (fun _ => .regional false)
    (fun h => ?_) (fun _ _ => .emoji) .plain
  · refine absurd hc ?_
    simp only [List.mem_cons, List.not_mem_nil, or_false] at hs
    rcases hs with rfl | rfl | rfl <;> decide
  · exact absurd hc (by simp [isShaper, h])

/-- **One character before a steady sequence.** It adds its own columns. -/
theorem Steady.widthBefore_eq {c : Char} {t : Text} {s : Sequel} (h : Steady (c :: t))
    (hs : Offers t s) :
    (widthBefore c s).1 = glyphWidth c ∧ Offers (c :: t) (widthBefore c s).2 := by
  obtain ⟨hcontrol, hshaper⟩ := h.calm c List.mem_cons_self
  have halone : (widthAlone c).1 = glyphWidth c ∧ Offers (c :: t) (widthAlone c).2 :=
    ⟨widthAlone_fst c, offers_widthAlone hshaper t⟩
  have hselector := hs.selector?_eq_none
  have hjoiner : c ≠ joiner := by
    rintro rfl
    exact absurd hshaper (by decide)
  rw [widthBefore, if_neg (by simp [hselector])]
  simp only [hselector, reduceCtorEq, if_false, false_and]
  by_cases hlow : c.toNat ≤ 0xA0
  · have hfeed : c ≠ '\n' := by
      rintro rfl
      exact absurd hcontrol (by decide)
    have hreturn : c ≠ '\r' := by
      rintro rfl
      exact absurd hcontrol (by decide)
    rw [if_pos hlow, if_neg hfeed, if_neg fun hboth => hreturn hboth.1, glyphWidth, if_pos hlow]
    exact ⟨rfl, .plain⟩
  rw [if_neg hlow]
  by_cases hplain : s = .plain
  · rw [if_pos hplain]
    exact halone
  have hemoji : c ≠ '\uFE0F' := by
    rintro rfl
    exact absurd hshaper (by decide)
  have htext : c ≠ '\uFE0E' := by
    rintro rfl
    exact absurd hshaper (by decide)
  rw [if_neg hplain, if_neg hemoji, if_neg htext, hs.unselect_eq]
  cases hs with
  | plain => exact absurd rfl hplain
  | emoji =>
    have hnone : widthBeforeEmoji c .emoji = none := if_neg hjoiner
    dsimp only
    rw [hnone]
    exact halone
  | regional several =>
    have hnone : ¬(several && c == joiner) = true := by simp [hjoiner]
    by_cases hregional : isRegional c = true
    · have hsome : widthBeforeEmoji c (.regional several) = some (1, .regional true) :=
        if_pos hregional
      dsimp only
      rw [hsome, glyphWidth_of_isRegional hregional]
      exact ⟨rfl, .regional true⟩
    · have hnone : widthBeforeEmoji c (.regional several) = none :=
        (if_neg hregional).trans (if_neg hnone)
      dsimp only
      rw [hnone]
      exact halone
  | ligature hmem hlast =>
    dsimp only
    cases hfound : widthBeforeLigature c _ false with
    | none => exact halone
    | some r =>
      rcases widthBeforeLigature_cases hfound with ⟨hglyph, joined, hjoined, rfl⟩ | ⟨hfirst, -⟩
      · rw [hjoined.resolve_right hjoiner, hglyph]
        exact ⟨rfl, .ligature (List.mem_cons_of_mem c hmem) hlast⟩
      · have hshares := (List.pairwise_cons.mp h.apart).1 _ hmem
        rw [sharesColumn_of_letter hfirst hlast] at hshares
        exact absurd hshares (by decide)

/-- The columns of a steady sequence are those of its characters. -/
theorem Steady.sequenceFold_eq {t : Text} (h : Steady t) :
    (sequenceFold t).1 = (t.map glyphWidth).sum ∧ Offers t (sequenceFold t).2 := by
  induction t with
  | nil => exact ⟨rfl, .plain⟩
  | cons c t ih =>
    obtain ⟨hsum, hoffers⟩ := ih ⟨fun d hd => h.calm d (List.mem_cons_of_mem c hd),
      (List.pairwise_cons.mp h.apart).2⟩
    obtain ⟨hcolumns, hnext⟩ := h.widthBefore_eq hoffers
    rw [sequenceFold_cons, List.map_cons, List.sum_cons]
    refine ⟨?_, hnext⟩
    dsimp only
    rw [hsum, hcolumns]
    push_cast
    omega

end Typeline
