import Mathlib.Data.List.Forall2
import Mathlib.Data.List.Infix
import Typeline.Key.Codes
import Typeline.Proofs.Key.Pauses
import Typeline.Proofs.Terminal.Probe

/-!
# Displays of key codes

A display of key codes writes a line for each byte that it reads. The line shows the byte as a
character, by two hexadecimal digits and by a decimal numeral, and has no line feed but the one that
ends it.

A display knows only the last four bytes, and before there are four it takes them for preceded by
blanks. No blank is in the word that ends the display, so these four bytes are the word if and only
if all bytes so far end with it. Therefore the display ends at the first place where the word is
complete, whatever stands before the word and however a start of it overlaps with it, and each byte
before the last one has got its line.

## Main definitions

* `KeyCodes.IsLineOf` : a text that shows a byte on a line of its own.
* `KeyCodes.Recent` : the last four bytes of a stream that starts with blanks.
* `Input.EndsAfter` : an input of bytes and pauses, and the end behind them.

## Main results

* `KeyCodes.isLineOf_line` : what is written for a byte.
* `KeyCodes.Recent.eq_quitWord_iff` : what the last four bytes tell.
* `KeyCodes.display_passes` : bytes among which the word is not.
* `KeyCodes.run_until_quitWord` : a whole display.
-/

namespace Typeline

namespace KeyCodes

/-! ### The line of a byte -/

/-- The digits of hexadecimal numerals. -/
def hexadecimalDigits : Text := "0123456789abcdef".toList

/-- What a line shows of a byte. -/
structure LineParts where
  /-- The byte as a character. -/
  glyph : Char
  /-- The first hexadecimal digit. -/
  high : Char
  /-- The second one. -/
  low : Char
  /-- The decimal numeral. -/
  numeral : Text

/-- A line without its ending. -/
def LineParts.text (p : LineParts) : Text :=
  ['\'', p.glyph, '\'', ' ', p.high, p.low, ' ', '('] ++ p.numeral ++
    ") (type quit to exit)".toList

/-- These parts are those of a byte. A byte that is no printable character of ASCII has a question
mark for its character. -/
structure LineParts.Show (p : LineParts) (b : UInt8) : Prop where
  glyph_printable : 0x20 ≤ b.toNat ∧ b.toNat ≤ 0x7E → p.glyph.toNat = b.toNat
  glyph_other : ¬(0x20 ≤ b.toNat ∧ b.toNat ≤ 0x7E) → p.glyph = '?'
  high_eq : hexadecimalDigits[b.toNat / 16]? = some p.high
  low_eq : hexadecimalDigits[b.toNat % 16]? = some p.low
  numeral_eq : p.numeral = b.toNat.repr.toList

/-- A text shows a byte on a line of its own, which ends with a line feed and a carriage return and
has no others. -/
def IsLineOf (b : UInt8) (t : Text) : Prop :=
  ∃ p : LineParts, p.Show b ∧ t = p.text ++ ['\n', '\r'] ∧ '\n' ∉ p.text ∧ '\r' ∉ p.text

/-- There is no control character among the parts of a byte. -/
theorem LineParts.Show.le_of_mem_text {p : LineParts} {b : UInt8} (h : p.Show b) :
    ∀ c ∈ p.text, 0x20 ≤ c.toNat := by
  have hglyph : 0x20 ≤ p.glyph.toNat := by
    by_cases hprintable : 0x20 ≤ b.toNat ∧ b.toNat ≤ 0x7E
    · rw [h.glyph_printable hprintable]
      exact hprintable.1
    · rw [h.glyph_other hprintable]
      decide
  have hall {t : Text} (ht : t.all (0x20 ≤ ·.toNat) = true) : ∀ c ∈ t, 0x20 ≤ c.toNat :=
    fun c hc => of_decide_eq_true (List.all_eq_true.mp ht c hc)
  have hdigit {i : Nat} {c : Char} (hc : hexadecimalDigits[i]? = some c) : 0x20 ≤ c.toNat :=
    hall (by decide) c (List.mem_of_getElem? hc)
  have hnumeral : ∀ c ∈ p.numeral, 0x20 ≤ c.toNat := fun c hc => by
    rw [h.numeral_eq, Nat.toList_repr] at hc
    have hdecimal := Nat.isDigit_of_mem_toDigits (by decide) (by decide) hc
    exact Nat.le_trans (by decide) (Char.isDigit_iff_toNat.mp hdecimal).1
  rw [text, List.forall_mem_append, List.forall_mem_append]
  refine ⟨⟨?_, hnumeral⟩, hall (by decide)⟩
  simp only [List.forall_mem_cons]
  exact ⟨by decide, hglyph, by decide, by decide, hdigit h.high_eq, hdigit h.low_eq, by decide,
    by decide, List.forall_mem_nil _⟩

/-- The parts that are written for a byte. -/
def LineParts.of (b : UInt8) : LineParts where
  glyph := if 0x20 ≤ b ∧ b ≤ 0x7E then Char.ofNat b.toNat else '?'
  high := Nat.digitChar (b.toNat / 16)
  low := Nat.digitChar (b.toNat % 16)
  numeral := decimal b.toNat

private theorem getElem?_hexadecimalDigits :
    ∀ n < 16, hexadecimalDigits[n]? = some (Nat.digitChar n) := by decide +kernel

theorem LineParts.show_of (b : UInt8) : (LineParts.of b).Show b where
  glyph_printable hprintable := by
    have hglyph : (of b).glyph = Char.ofNat b.toNat := if_pos hprintable
    rw [hglyph, Char.ofNat, dif_pos (Or.inl (by omega))]
    rfl
  glyph_other hother := if_neg hother
  high_eq := getElem?_hexadecimalDigits _ (by have := b.toNat_lt; omega)
  low_eq := getElem?_hexadecimalDigits _ (Nat.mod_lt _ (by decide))
  numeral_eq := Nat.toList_repr.symm

private theorem line_eq (b : UInt8) : line b = (LineParts.of b).text ++ ['\n', '\r'] := by
  simp only [line, LineParts.text, hexadecimal, List.append_assoc]
  rfl

/-- **What is written for a byte** is a line that shows it. -/
theorem isLineOf_line (b : UInt8) : IsLineOf b (line b) := by
  have hshow := LineParts.show_of b
  exact ⟨_, hshow, line_eq b, fun hfeed => absurd (hshow.le_of_mem_text _ hfeed) (by decide),
    fun hreturn => absurd (hshow.le_of_mem_text _ hreturn) (by decide)⟩

/-! ### The last four bytes -/

/-- The last four bytes of a stream that starts with four blanks. -/
structure Recent (seen recent : List UInt8) : Prop where
  length_eq : recent.length = 4
  suffix : recent <:+ List.replicate 4 0x20 ++ seen

private theorem recent_blanks : Recent [] (List.replicate 4 0x20) := ⟨rfl, List.suffix_refl _⟩

namespace Recent

variable {seen recent : List UInt8}

/-- A byte comes, and the oldest one of the four goes. -/
theorem push (h : Recent seen recent) (b : UInt8) :
    Recent (seen ++ [b]) (recent.drop 1 ++ [b]) := by
  obtain ⟨earlier, hstream⟩ := h.suffix
  have hlength := h.length_eq
  cases recent with
  | nil => exact absurd hlength (by decide)
  | cons first recent =>
    refine ⟨by simpa using hlength, earlier ++ [first], ?_⟩
    rw [← List.append_assoc _ seen, ← hstream]
    simp

/-- **The last four bytes.** They are the word that ends the display if and only if the stream ends
with it, since the blanks before the stream are no part of it. -/
theorem eq_quitWord_iff (h : Recent seen recent) : recent = quitWord ↔ quitWord <:+ seen := by
  have hlength : recent.length = quitWord.length := h.length_eq
  constructor
  · rintro rfl
    rcases List.suffix_or_suffix_of_suffix h.suffix (List.suffix_append _ seen) with hword | hword
    · exact hword
    · -- The word would begin with some of the blanks.
      obtain ⟨start, hstart⟩ := hword
      obtain ⟨earlier, hstream⟩ := h.suffix
      rw [← hstart, ← List.append_assoc, List.append_left_inj] at hstream
      have hblank : ∀ b ∈ start, b = 0x20 := fun b hb =>
        List.eq_of_mem_replicate (hstream ▸ List.mem_append_right earlier hb)
      cases start with
      | nil => exact hstart ▸ List.suffix_refl _
      | cons b start =>
        have hmem : (0x20 : UInt8) ∈ quitWord :=
          hstart ▸ hblank b List.mem_cons_self ▸ List.mem_cons_self
        exact absurd hmem (by decide +kernel)
  · intro hword
    have hstream : quitWord <:+ List.replicate 4 0x20 ++ seen :=
      List.suffix_append_of_suffix hword
    exact (List.suffix_of_suffix_length_le h.suffix hstream (Nat.le_of_eq hlength)).eq_of_length
      hlength

end Recent

/-! ### Displays -/

section Display

variable {script : List Reading} {seen recent : List UInt8}

/-- A display goes on over bytes and pauses in which the word is not completed. -/
theorem display_passes (hpaused : Paused script) (hrecent : Recent seen recent)
    (hword : ¬quitWord <:+: seen ++ bytesIn script) (drained : Silence) (queue : List Reading)
    (output : Output) : ∃ later, Recent (seen ++ bytesIn script) later ∧
      display drained recent (script ++ queue) output =
        display drained later queue (((bytesIn script).map line).foldl Output.write output) := by
  induction script generalizing seen recent output with
  | nil => exact ⟨recent, by rwa [show bytesIn [] = [] from rfl, List.append_nil], rfl⟩
  | cons r script ih =>
    have hrest := hpaused.of_suffix (List.suffix_cons r script)
    obtain rfl | ⟨b, rfl⟩ := hpaused.cases_cons
    · exact ih hrest hrecent hword output
    · have hbytes : seen ++ bytesIn (.byte b :: script) = seen ++ [b] ++ bytesIn script :=
        (List.append_assoc seen [b] _).symm
      have hpushed := hrecent.push b
      have hnot : recent.drop 1 ++ [b] ≠ quitWord := fun heq => hword <| by
        rw [hbytes]
        exact (hpushed.eq_quitWord_iff.mp heq).isInfix.trans (List.prefix_append _ _).isInfix
      obtain ⟨later, hlater, hdisplay⟩ :=
        ih hrest hpushed (hbytes ▸ hword) (output.write (line b))
      refine ⟨later, hbytes ▸ hlater, ?_⟩
      rw [List.cons_append, display, if_neg hnot, hdisplay]
      rfl

/-- A display ends at the byte that completes the word. -/
theorem display_ends (hrecent : Recent seen recent) {b : UInt8} (hword : quitWord <:+ seen ++ [b])
    (drained : Silence) (queue : List Reading) (output : Output) :
    display drained recent (.byte b :: queue) output = (.quit, queue, output) := by
  rw [display, if_pos ((hrecent.push b).eq_quitWord_iff.mpr hword)]

/-- Where a word occurs among bytes and pauses, there is a byte that completes it first. -/
theorem exists_first_occurrence {word : List UInt8} (hne : word ≠ [])
    (hword : word <:+: bytesIn script) : ∃ earlier b later, script = earlier ++ .byte b :: later ∧
      ¬word <:+: bytesIn earlier ∧ word <:+ bytesIn earlier ++ [b] := by
  induction script using List.reverseRecOn with
  | nil => exact absurd (List.infix_nil.mp hword) hne
  | append_singleton script r ih =>
    by_cases hearlier : word <:+: bytesIn script
    · obtain ⟨earlier, b, later, rfl, hfirst⟩ := ih hearlier
      exact ⟨earlier, b, later ++ [r], by simp, hfirst⟩
    · have hbytes : bytesIn (script ++ [r]) = bytesIn script ++ r.byte?.toList := by
        rw [bytesIn, List.filterMap_append]
        cases r <;> rfl
      rw [hbytes] at hword
      cases r with
      | silent s => exact absurd (by simpa [Reading.byte?] using hword) hearlier
      | byte b => exact ⟨script, b, [], rfl, hearlier,
          (List.infix_concat_iff.mp hword).resolve_right hearlier⟩

end Display

end KeyCodes

/-- An input that gives bytes and pauses and then ends. Behind the script, either there is nothing
and the end comes again and again, or the end comes once and other readings follow. -/
structure Input.EndsAfter (input : Input) (script rest : List Reading) : Prop where
  queue_eq : input.queue = script ++ rest
  paused : Paused script
  ended : rest.headD (.silent input.drained) = .silent .ended

namespace KeyCodes

/-- A display ends with the input. -/
theorem display_of_ended {drained : Silence} {rest : List Reading}
    (h : rest.headD (.silent drained) = .silent .ended) (recent : List UInt8) (output : Output) :
    display drained recent rest output = (.quit, rest.tail, output) := by
  cases rest with
  | nil =>
    obtain rfl : drained = .ended := Reading.silent.inj h
    rfl
  | cons r rest =>
    obtain rfl : r = .silent .ended := h
    rfl

section Run

variable {settings : TerminalSettings} {input : Input} {script rest : List Reading}
  (assumed : settings.assumeTerminal = true) (h : input.EndsAfter script rest) (mode : RawMode)
  (output : Output)

include assumed in
private theorem run_of_assumed : run settings mode input output =
    ((display input.drained (List.replicate 4 0x20) input.queue (output.write banner)).1,
      { input with
        queue :=
          (display input.drained (List.replicate 4 0x20) input.queue (output.write banner)).2.1 },
      (display input.drained (List.replicate 4 0x20) input.queue (output.write banner)).2.2) := by
  rw [run, assumed]
  simp only [Bool.not_true, Bool.and_false, Bool.false_eq_true, if_false, if_true]
  rfl

include assumed h

/-- **Displays of key codes.** On input of bytes and pauses with the end behind them, a display
reads up to and including the byte that completes the first occurrence of the word, or everything,
the end with it, if there is none. It writes what it starts with, and then a line for each byte that
it has read, in order, but none for the byte that completes the word. If no write fails, this is all
that comes to what has been written. -/
theorem run_until_quitWord : ∃ bytes lines queue,
    run settings mode input output =
      (.quit, { input with queue }, lines.foldl Output.write (output.write banner)) ∧
    List.Forall₂ IsLineOf bytes lines ∧
    ((run settings mode input output).2.2.Accepts →
      (run settings mode input output).2.2.written = output.written ++ banner ++ lines.flatten) ∧
    ((∃ earlier b later, script = earlier ++ .byte b :: later ∧
        ¬Utf8.encode "quit".toList <:+: bytesIn earlier ∧
        Utf8.encode "quit".toList <:+ bytesIn earlier ++ [b] ∧
        bytes = bytesIn earlier ∧ queue = later ++ rest) ∨
      ¬Utf8.encode "quit".toList <:+: bytesIn script ∧ bytes = bytesIn script ∧
        queue = rest.tail) := by
  have hrun : run settings mode input output = _ := run_of_assumed assumed mode output
  have hlines (bytes : List UInt8) : List.Forall₂ IsLineOf bytes (bytes.map line) :=
    List.forall₂_map_right_iff.mpr (List.forall₂_same.mpr fun b _ => isLineOf_line b)
  have hwritten (lines : List Text) :
      (lines.foldl Output.write (output.write banner)).Accepts →
        (lines.foldl Output.write (output.write banner)).written =
          output.written ++ banner ++ lines.flatten := fun haccepts => by
    rw [(((output.wrote_write banner).append (Output.wrote_foldl_write _ lines)) haccepts).2,
      List.append_assoc]
  by_cases hword : quitWord <:+: bytesIn script
  · obtain ⟨earlier, b, later, rfl, hnot, hfirst⟩ :=
      exists_first_occurrence (by decide +kernel) hword
    have hearlier : Paused earlier := fun s hs => h.paused s (List.mem_append_left _ hs)
    obtain ⟨recent, hrecent, hpasses⟩ := display_passes hearlier recent_blanks hnot input.drained
      (.byte b :: later ++ rest) (output.write banner)
    rw [h.queue_eq, List.append_assoc, hpasses, List.cons_append,
      display_ends hrecent hfirst] at hrun
    exact ⟨_, _, _, hrun, hlines _, hrun ▸ hwritten _,
      Or.inl ⟨earlier, b, later, rfl, hnot, hfirst, rfl, rfl⟩⟩
  · obtain ⟨recent, -, hpasses⟩ := display_passes h.paused recent_blanks hword input.drained rest
      (output.write banner)
    rw [h.queue_eq, hpasses, display_of_ended h.ended] at hrun
    exact ⟨_, _, _, hrun, hlines _, hrun ▸ hwritten _, Or.inr ⟨hword, rfl, rfl⟩⟩

end Run

/-- A start of the word twice, with pauses in it, and then the word. -/
def overlappingScript : List Reading :=
  (Utf8.encode "qu".toList).map .byte ++ [.silent .notReady] ++
    (Utf8.encode "quiquit".toList).map .byte ++ [.silent .notReady] ++
      (Utf8.encode "z".toList).map .byte

/-- An input that gives this script and then ends. -/
def overlappingInput : Input := ⟨overlappingScript, .ended, .notReady, false, none⟩

/-- The display ends in the middle of the script, after eight lines. -/
theorem run_until_quitWord_overlappingInput :
    (TerminalSettings.ofColumns 80).assumeTerminal = true ∧
      overlappingInput.EndsAfter overlappingScript [] ∧
      (∃ earlier b later lines, overlappingScript = earlier ++ .byte b :: later ∧
        ¬Utf8.encode "quit".toList <:+: bytesIn earlier ∧
        Utf8.encode "quit".toList <:+ bytesIn earlier ++ [b] ∧
        List.Forall₂ IsLineOf (bytesIn earlier) lines ∧
        run (.ofColumns 80) .ofPipe overlappingInput (.fresh none) =
          (.quit, { overlappingInput with queue := later ++ [] },
            lines.foldl Output.write ((Output.fresh none).write banner))) ∧
      (run (.ofColumns 80) .ofPipe overlappingInput (.fresh none)).2.1.queue =
        [.silent .notReady, .byte 0x7A] ∧
      (run (.ofColumns 80) .ofPipe overlappingInput (.fresh none)).2.2.written =
        ["Line editor key codes debugging mode.\n",
          "Press keys to see scan codes. Type 'quit' at any time to exit.\n",
          "'q' 71 (113) (type quit to exit)\n\r",
          "'u' 75 (117) (type quit to exit)\n\r",
          "'q' 71 (113) (type quit to exit)\n\r",
          "'u' 75 (117) (type quit to exit)\n\r",
          "'i' 69 (105) (type quit to exit)\n\r",
          "'q' 71 (113) (type quit to exit)\n\r",
          "'u' 75 (117) (type quit to exit)\n\r",
          "'i' 69 (105) (type quit to exit)\n\r"].flatMap String.toList := by
  have hpaused : Paused overlappingScript := fun s => by cases s <;> decide +kernel
  have hends : overlappingInput.EndsAfter overlappingScript [] :=
    ⟨(List.append_nil _).symm, hpaused, rfl⟩
  have hassumed : (TerminalSettings.ofColumns 80).assumeTerminal = true := rfl
  obtain ⟨bytes, lines, queue, hrun, hlines, -, hword⟩ :=
    run_until_quitWord hassumed hends .ofPipe (.fresh none)
  obtain ⟨earlier, b, later, hscript, hnot, hfirst, rfl, rfl⟩ :=
    hword.resolve_right fun hnone => absurd hnone.1 (by decide +kernel)
  exact ⟨hassumed, hends, ⟨earlier, b, later, lines, hscript, hnot, hfirst, hlines, hrun⟩,
    by decide +kernel, by decide +kernel⟩

end KeyCodes

end Typeline
