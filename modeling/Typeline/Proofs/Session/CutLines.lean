import Typeline.Proofs.Edit.CursorOffset
import Typeline.Proofs.Edit.TwoLists
import Typeline.Proofs.Session.OrdinaryText

/-!
# Lines cut at the capacity

On a terminal that cannot be used for editing, a line is read byte by byte up to its newline, and of
its bytes only those are kept that fit. What is kept is then read as a text. If the cut lies between
two characters, this is the longest start of the line that fits, without the carriage returns at its
end. Otherwise one more character is shown for the bytes in front of the cut: U+FFFD, of which the
line need not have any, and which may take more bytes than there is room for. So what comes out is a
start of the line that fits if and only if the line is not cut inside of a character.

## Main definitions

* `FitsOrCuts` : a line fits, or the capacity is the offset of a character in it.
* `uneditedText` : what is read of a line.

## Main results

* `Utf8.take_encode_of_fitsOrCuts`, `Utf8.exists_take_encode` : the bytes that are kept.
* `Editor.readLine_unedited` : reading a line without editing.
-/

namespace Typeline

/-- A line fits, or a cut at the capacity lies between two of its characters. -/
def FitsOrCuts (capacity : Nat) (line : Text) : Prop :=
  byteLength line ≤ capacity ∨ (splitAtByte? capacity line).isSome = true

instance (capacity : Nat) (line : Text) : Decidable (FitsOrCuts capacity line) :=
  inferInstanceAs (Decidable (_ ∨ _))

/-- What is read of a line without editing it. -/
def uneditedText (capacity : Nat) (line : Text) : Text :=
  if FitsOrCuts capacity line then (Line.longestPrefix capacity line).rdropWhile (· == '\r')
  else Line.longestPrefix capacity line ++ [replacement]

/-! ### The longest start that fits -/

section LongestPrefix

variable {room : Nat} {t : Text}

/-- The longest start of a text that fits is the whole text, or the next character does not fit. -/
theorem Line.longestPrefix_cases (room : Nat) (t : Text) :
    byteLength t ≤ room ∧ longestPrefix room t = t ∨
      ∃ c rest, t = longestPrefix room t ++ c :: rest ∧ byteLength (longestPrefix room t) ≤ room ∧
        room < byteLength (longestPrefix room t) + c.utf8Size := by
  induction t generalizing room with
  | nil => exact Or.inl ⟨Nat.zero_le _, rfl⟩
  | cons c t ih =>
    rw [longestPrefix_cons]
    by_cases hc : c.utf8Size ≤ room
    · rw [if_pos hc, byteLength_cons, byteLength_cons]
      rcases ih (room - c.utf8Size) with ⟨hfits, hwhole⟩ | ⟨d, rest, ht, hfits, hfull⟩
      · exact Or.inl ⟨by omega, by rw [hwhole]⟩
      · refine Or.inr ⟨d, rest, ?_, by omega, by omega⟩
        rw [List.cons_append, ← ht]
    · rw [if_neg hc]
      exact Or.inr ⟨c, t, rfl, Nat.zero_le _, by rw [byteLength_nil]; omega⟩

theorem Line.byteLength_longestPrefix_le (room : Nat) (t : Text) :
    byteLength (longestPrefix room t) ≤ room := by
  rcases longestPrefix_cases room t with ⟨hfits, hwhole⟩ | ⟨c, rest, -, hfits, -⟩
  · rwa [hwhole]
  · exact hfits

section NextCharacter

variable {c : Char} {rest : Text} (ht : t = Line.longestPrefix room t ++ c :: rest)

include ht

private theorem splitAtByte?_longestPrefix :
    splitAtByte? (byteLength (Line.longestPrefix room t)) t =
    some ((Line.longestPrefix room t).reverse, c :: rest) :=
  splitAtByte?_eq_some.mpr ⟨by rw [List.reverse_reverse, ← ht], byteLength_reverse _⟩

/-- If the next character does not fit, a text fits or is cut between two characters only where the
longest start that fits takes all the room. -/
theorem fitsOrCuts_iff_of_full
    (hfull : room < byteLength (Line.longestPrefix room t) + c.utf8Size) :
    FitsOrCuts room t ↔ byteLength (Line.longestPrefix room t) = room := by
  have hsplit := splitAtByte?_longestPrefix ht
  constructor
  · rintro (hfits | hcut)
    · have hlength := byteLength_of_splitAtByte? hsplit
      rw [byteLength_cons] at hlength
      omega
    · have hle := Line.byteLength_longestPrefix_le room t
      rcases Line.le_or_le_of_splitAtByte? hsplit hcut with hbefore | hbehind <;> omega
  · intro hroom
    rw [hroom] at hsplit
    exact Or.inr (Option.isSome_iff_exists.mpr ⟨_, hsplit⟩)

end NextCharacter

namespace Utf8

/-- If a text fits or is cut between two characters, the bytes that are kept are those of its
longest start that fits. -/
theorem take_encode_of_fitsOrCuts (h : FitsOrCuts room t) :
    (encode t).take room = encode (Line.longestPrefix room t) := by
  rcases Line.longestPrefix_cases room t with ⟨hfits, hwhole⟩ | ⟨c, rest, ht, -, hfull⟩
  · rw [hwhole, List.take_of_length_le (by rwa [length_encode])]
  · have hroom := (fitsOrCuts_iff_of_full ht hfull).mp h
    conv => lhs; rw [ht, encode_append]
    exact List.take_left' (by rw [length_encode, hroom])

/-- Otherwise some of the bytes of the next character are kept as well. -/
theorem exists_take_encode (h : ¬FitsOrCuts room t) :
    ∃ c rest bytes bytes', t = Line.longestPrefix room t ++ c :: rest ∧
      room < byteLength (Line.longestPrefix room t) + c.utf8Size ∧ bytes ++ bytes' = encodeChar c ∧
      bytes ≠ [] ∧ bytes' ≠ [] ∧
      (encode t).take room = encode (Line.longestPrefix room t) ++ bytes := by
  rcases Line.longestPrefix_cases room t with ⟨hfits, -⟩ | ⟨c, rest, ht, hle, hfull⟩
  · exact absurd (Or.inl hfits) h
  · have hlt := Nat.lt_of_le_of_ne hle (mt (fitsOrCuts_iff_of_full ht hfull).mpr h)
    have hsize : (encodeChar c).length = c.utf8Size := String.length_utf8EncodeChar c
    set kept := room - byteLength (Line.longestPrefix room t) with hkept
    refine ⟨c, rest, (encodeChar c).take kept, (encodeChar c).drop kept, ht, hfull,
      List.take_append_drop _ _, ?_, ?_, ?_⟩
    · refine List.ne_nil_of_length_pos ?_
      rw [List.length_take]
      omega
    · refine List.ne_nil_of_length_pos ?_
      rw [List.length_drop]
      omega
    · have hbytes :
          encode t = encode (Line.longestPrefix room t) ++ (encodeChar c ++ encode rest) := by
        conv => lhs; rw [ht, encode_append]
        rfl
      rw [hbytes, List.take_append, length_encode, List.take_of_length_le (by rwa [length_encode]),
        List.take_append_of_le_length (by omega)]

end Utf8

end LongestPrefix

/-! ### Carriage returns -/

/-- Behind the last carriage return nothing is removed. -/
theorem withoutReturns_append_of_notMem {bytes : List UInt8} (hne : bytes ≠ []) (h : 0x0D ∉ bytes)
    (start : List UInt8) : withoutReturns (start ++ bytes) = start ++ bytes := by
  obtain ⟨bytes, b, rfl⟩ := List.eq_nil_or_concat bytes |>.resolve_left hne
  rw [List.concat_eq_append] at h ⊢
  have hb : ¬(b == 0x0D) = true := by
    rw [beq_iff_eq]
    rintro rfl
    exact h (List.mem_append_right _ (List.mem_singleton_self _))
  rw [← List.append_assoc]
  exact List.rdropWhile_concat_neg (· == 0x0D) _ _ hb

/-- The carriage returns at the end of a text are those at the end of its bytes. -/
theorem withoutReturns_encode (t : Text) :
    withoutReturns (Utf8.encode t) = Utf8.encode (t.rdropWhile (· == '\r')) := by
  induction t using List.reverseRecOn with
  | nil => rfl
  | append_singleton t c ih =>
    have hlast : Utf8.encode [c] = Utf8.encodeChar c := List.append_nil _
    rw [Utf8.encode_append, hlast]
    by_cases hc : c = '\r'
    · subst hc
      rw [List.rdropWhile_concat_pos _ _ _ rfl, ← ih]
      exact List.rdropWhile_concat_pos (· == 0x0D) _ _ rfl
    · have hreturn : 0x0D ∉ Utf8.encodeChar c := fun hmem =>
        hc (Utf8.eq_of_mem_encodeChar (c := '\r') (by decide) hmem)
      rw [List.rdropWhile_concat_neg _ _ _ (by simpa using hc), Utf8.encode_append, hlast]
      exact withoutReturns_append_of_notMem (Utf8.encodeChar_ne_nil c) hreturn _

/-! ### Reading -/

/-- What is kept of a line, as a text. -/
theorem lossy_withoutReturns_take (capacity : Nat) (line : Text) :
    Utf8.lossy (withoutReturns ((Utf8.encode line).take capacity)) =
      uneditedText capacity line := by
  rw [uneditedText]
  by_cases h : FitsOrCuts capacity line
  · rw [if_pos h, Utf8.take_encode_of_fitsOrCuts h, withoutReturns_encode, Utf8.lossy_encode]
  · obtain ⟨c, rest, bytes, bytes', -, -, hchar, hbytes, hbytes', htake⟩ :=
      Utf8.exists_take_encode h
    have hreturn : 0x0D ∉ bytes := by
      intro hmem
      obtain rfl : c = '\r' := Utf8.eq_of_mem_encodeChar (c := '\r') (by decide)
        (hchar ▸ List.mem_append_left _ hmem)
      -- A carriage return has one byte, which is not cut.
      rcases List.append_eq_singleton_iff.mp hchar with ⟨hnil, -⟩ | ⟨-, hnil⟩
      · exact hbytes hnil
      · exact hbytes' hnil
    rw [if_neg h, htake, withoutReturns_append_of_notMem hbytes hreturn,
      Utf8.lossy_encode_of_cutShort _ hchar hbytes hbytes']

/-- What is read of a line is a start of it that fits if and only if the line is not cut inside of a
character. -/
theorem uneditedText_iff (capacity : Nat) (line : Text) :
    byteLength (uneditedText capacity line) ≤ capacity ∧ uneditedText capacity line <+: line ↔
      FitsOrCuts capacity line := by
  rw [uneditedText]
  by_cases h : FitsOrCuts capacity line
  · rw [if_pos h, iff_true_right h]
    have hprefix := List.rdropWhile_prefix (· == '\r') (Line.longestPrefix capacity line)
    refine ⟨?_, hprefix.trans (List.take_prefix _ _)⟩
    obtain ⟨returns, hreturns⟩ := hprefix
    have hle := Line.byteLength_longestPrefix_le capacity line
    rw [← hreturns, byteLength_append] at hle
    omega
  · obtain ⟨c, rest, -, -, ht, hfull, -⟩ := Utf8.exists_take_encode h
    rw [if_neg h, iff_false_right h]
    rintro ⟨hle, hprefix⟩
    -- Only a character that is U+FFFD itself looks like its cut, and it does not fit.
    conv at hprefix => rhs; rw [ht]
    obtain ⟨later, hlater⟩ := (List.prefix_append_right_inj _).mp hprefix
    obtain ⟨rfl, -⟩ := List.cons.inj hlater
    rw [byteLength_append, byteLength_cons, byteLength_nil] at hle
    omega

namespace Editor

/-- **Reading a line without editing.** Up to its newline a line may come with pauses in it. What is
read of it, and left of the input, is told by its bytes alone. It is a start of the line that fits
if and only if the line fits or is cut between two characters; otherwise a character is shown in it
that the line does not have at this place. -/
theorem readLine_unedited {editor : Editor} {input : Input}
    (hon : (input.isTerminal || editor.terminal.assumeTerminal) = true)
    (hplain : editor.terminal.isPlain = true) {line : Text} (hline : '\n' ∉ line)
    {queue : List Reading} (hpaused : Paused queue) (hbytes : bytesIn queue = Utf8.encode line)
    (rest : List Reading) (mode : RawMode) (output : Output) (prompt : Text) :
    (editor.readLine mode { input with queue := queue ++ .byte 0x0A :: rest } output prompt).Yields
        (uneditedText editor.config.capacity line) editor { input with queue := rest } ∧
      (editor.readLine mode { input with queue := queue ++ .byte 0x0A :: rest } output
        prompt).output = output.write prompt ∧
      (byteLength (uneditedText editor.config.capacity line) ≤ editor.config.capacity ∧
          uneditedText editor.config.capacity line <+: line ↔
        FitsOrCuts editor.config.capacity line) := by
  have hnewline : 0x0A ∉ bytesIn queue := by
    rw [hbytes]
    exact Utf8.notMem_encode (c := '\n') (by decide) hline
  have hroom : ([] : List UInt8).length ≤ editor.config.capacity := Nat.zero_le _
  have hread := readUnedited_of_paused hpaused hnewline input.drained rest hroom
  rw [List.nil_append, hbytes, lossy_withoutReturns_take] at hread
  rw [readLine, if_pos (by rw [hplain, Bool.and_true]; exact hon)]
  simp only [hread]
  exact ⟨⟨rfl, rfl, rfl⟩, trivial, uneditedText_iff _ _⟩

/-- An editor on a terminal that cannot be used for editing. -/
def plainEditor (capacity : Nat) : Editor :=
  .ofConfig ⟨false, false, capacity⟩ ⟨true, none, some "dumb".toList⟩

/-- An input with a line of two letters and a carriage return between them. -/
def returnQueue : List Reading := [.byte 0x61, .byte 0x0D, .byte 0x62]

/-- An input with a line of two letters and a pause inside of the second one. -/
def pausedQueue : List Reading := [.byte 0x61, .byte 0xC3, .silent .notReady, .byte 0xA9]

/-- Of each of two lines two bytes are kept: a letter and a carriage return of the one, a letter and
half of another letter of the other one. -/
theorem readLine_unedited_twoBytes :
    ((plainEditor 2).readLine .ofPipe { Input.ofBytes [] true false none with
        queue := returnQueue ++ .byte 0x0A :: [.byte 0x78] } (.fresh none) ['>']).result =
          .event (.line ['a']) ∧
      FitsOrCuts 2 ['a', '\r', 'b'] ∧
    ((plainEditor 2).readLine .ofPipe { Input.ofBytes [] true false none with
        queue := pausedQueue ++ .byte 0x0A :: [.byte 0x78] } (.fresh none) ['>']).result =
          .event (.line ['a', replacement]) ∧
      ¬FitsOrCuts 2 ['a', 'é'] := by
  have hread (line : Text) (hline : '\n' ∉ line) (queue : List Reading) (hpaused : Paused queue)
      (hbytes : bytesIn queue = Utf8.encode line) :=
    @readLine_unedited (plainEditor 2) (.ofBytes [] true false none) (by decide) (by decide) line
      hline queue hpaused hbytes [.byte 0x78] .ofPipe (.fresh none) ['>']
  obtain ⟨hwhole, -, -⟩ := hread ['a', '\r', 'b'] (by decide) returnQueue
    (fun s hs => by simp [returnQueue] at hs) (by decide +kernel)
  obtain ⟨hcut, -, -⟩ := hread ['a', 'é'] (by decide) pausedQueue
    (fun s hs => by simpa [pausedQueue] using hs) (by decide +kernel)
  have hwholeText : uneditedText 2 ['a', '\r', 'b'] = ['a'] := by decide +kernel
  have hcutText : uneditedText 2 ['a', 'é'] = ['a', replacement] := by decide +kernel
  refine ⟨?_, by decide +kernel, ?_, by decide +kernel⟩
  · rw [← hwholeText]
    exact hwhole.result_eq
  · rw [← hcutText]
    exact hcut.result_eq

/-- **A character that was not typed.** A line of one character of two bytes, where there is room
for one byte, is read as U+FFFD, which takes three. -/
theorem exists_readLine_replacement : ¬∀ (editor : Editor) (mode : RawMode) (input : Input)
    (output : Output) (prompt line : Text) (rest : List Reading),
    1 ≤ editor.config.capacity → (input.isTerminal || editor.terminal.assumeTerminal) = true →
    editor.terminal.isPlain = true → '\n' ∉ line →
    ∃ t, (editor.readLine mode { input with
        queue := (Utf8.encode line).map .byte ++ .byte 0x0A :: rest } output prompt).result =
          .event (.line t) ∧ byteLength t ≤ editor.config.capacity ∧ t <+: line := by
  intro h
  obtain ⟨t, hresult, hfits, -⟩ := h (plainEditor 1) .ofPipe (.ofBytes [] true false none)
    (.fresh none) ['>'] ['é'] [.byte 0x78] (Nat.le_refl 1) (by decide) (by decide) (by decide)
  have hread : ((plainEditor 1).readLine .ofPipe { Input.ofBytes [] true false none with
      queue := (Utf8.encode ['é']).map .byte ++ .byte 0x0A :: [.byte 0x78] } (.fresh none)
        ['>']).result = .event (.line [replacement]) := by decide
  obtain rfl : [replacement] = t :=
    EditEvent.line.inj (ReadResult.event.inj (hread.symm.trans hresult))
  exact absurd hfits (by decide)

end Editor

end Typeline
