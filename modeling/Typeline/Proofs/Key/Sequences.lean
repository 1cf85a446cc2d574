import Mathlib.Tactic.SplitIfs
import Typeline.Proofs.Key.Characters

/-!
# Control sequences from the keyboard

A terminal sends most editing keys as control sequences: the escape character, a bracket, parameter
bytes, intermediate bytes and a final byte. A decoder reads the parameters to their end only if the
first of them is a digit. If another byte follows the bracket, it takes this byte for the final one.
That is right if there are neither parameters nor intermediate bytes; otherwise, as in the sequences
with a private mark or an empty first parameter, the bytes behind it are left, and they are read as
characters that have been typed.

## Main definitions

* `KeySequence` : a well-formed control sequence.
* `KeySequence.IsReadWhole`, `KeySequence.unread` : whether a decoder reads it to its end, and what
  is left of it.

## Main results

* `KeySequence.read_bytes` : what a decoder makes of a control sequence.
* `KeySequence.exists_unread` : a control sequence that is not read to its end.
-/

namespace Typeline

/-- A well-formed control sequence, with no more bytes than a decoder keeps. -/
structure KeySequence where
  /-- The bytes behind the bracket. -/
  parameters : List UInt8
  /-- The bytes behind the parameters. -/
  intermediates : List UInt8
  /-- The byte that ends the sequence. -/
  final : UInt8
  mem_parameters : ∀ b ∈ parameters, 0x30 ≤ b ∧ b ≤ 0x3F
  mem_intermediates : ∀ b ∈ intermediates, 0x20 ≤ b ∧ b ≤ 0x2F
  final_range : 0x40 ≤ final ∧ final ≤ 0x7E
  length_le : parameters.length + intermediates.length ≤ 16

namespace KeySequence

variable (s : KeySequence)

/-- The bytes between the bracket and the final byte. -/
def body : List UInt8 := s.parameters ++ s.intermediates

/-- All bytes of a sequence. -/
def bytes : List UInt8 := [0x1B, '['.toUInt8] ++ s.body ++ [s.final]

/-- Nothing stands between the bracket and the final byte, or a digit comes first. -/
def IsReadWhole : Prop := s.body = [] ∨ ∃ b ∈ s.parameters.head?, 0x30 ≤ b ∧ b ≤ 0x39

instance : Decidable s.IsReadWhole := inferInstanceAs (Decidable (_ ∨ ∃ b ∈ s.parameters.head?, _))

/-- The bytes that are left: all but the first one behind the bracket. -/
def unread : List UInt8 := if s.IsReadWhole then [] else s.body.tail ++ [s.final]

theorem mem_body {b : UInt8} (hb : b ∈ s.body) : 0x20 ≤ b.toNat ∧ b.toNat < 0x40 := by
  rcases List.mem_append.mp hb with h | h
  · have hrange := s.mem_parameters b h
    simp only [UInt8.le_iff_toNat_le, UInt8.reduceToNat] at hrange
    omega
  · have hrange := s.mem_intermediates b h
    simp only [UInt8.le_iff_toNat_le, UInt8.reduceToNat] at hrange
    omega

end KeySequence

namespace KeyDecoder

private theorem controlKey_ne_char (b : UInt8) (c : Char) : controlKey b ≠ .char c := by
  unfold controlKey
  split_ifs <;> simp

private theorem numberedKey_ne_char (parameters : List UInt8) (b : UInt8) (c : Char) :
    numberedKey parameters b ≠ .char c := by
  unfold numberedKey
  split_ifs <;> simp

/-- Parameters are read up to the final byte. -/
theorem readParameters_append (soon : Silence) {parameters body : List UInt8}
    (hbody : ∀ b ∈ body, b.toNat < 0x40) (hlimit : parameters.length + body.length ≤ parameterLimit)
    {final : UInt8} (hfinal : 0x40 ≤ final ∧ final ≤ 0x7E) (queue : List Reading) :
    readParameters soon parameters ((body ++ [final]).map .byte ++ queue) =
      (.key (numberedKey (parameters ++ body) final), queue) := by
  induction body generalizing parameters with
  | nil => simp [readParameters, hfinal]
  | cons b body ih =>
    have hb : ¬(0x40 ≤ b ∧ b ≤ 0x7E) := by
      have hlow := hbody b List.mem_cons_self
      simp only [UInt8.le_iff_toNat_le, UInt8.reduceToNat]
      omega
    rw [List.length_cons] at hlimit
    simp only [List.cons_append, List.map_cons, readParameters]
    rw [if_neg hb, if_neg (by omega), ih (fun c hc => hbody c (List.mem_cons_of_mem b hc))
      (by simp only [List.length_append, List.length_singleton]; omega), List.append_assoc]
    rfl

/-- A byte behind the bracket that is no digit is taken for the final one. -/
theorem readSecond_of_not_digit {b : UInt8} (hb : ¬(0x30 ≤ b ∧ b ≤ 0x39)) (soon : Silence)
    (queue : List Reading) :
    readSecond soon '['.toUInt8 (.byte b :: queue) = (.key (controlKey b), queue) := by
  rw [readSecond, if_pos rfl, if_neg hb]

/-- An idle decoder reads a bracket behind the escape character, and then what follows. -/
theorem read_introducer (input : Input) (queue : List Reading) :
    idle.read { input with queue := .byte 0x1B :: .byte '['.toUInt8 :: queue } =
      ((readSecond input.drainedSoon '['.toUInt8 queue).1, idle,
        { input with queue := (readSecond input.drainedSoon '['.toUInt8 queue).2 }) :=
  rfl

end KeyDecoder

namespace KeySequence

open KeyDecoder

variable (s : KeySequence)

/-- A sequence in which a digit comes first is read to its end. -/
theorem readSecond_of_digit {b : UInt8} (hfirst : s.parameters.head? = some b)
    (hdigit : 0x30 ≤ b ∧ b ≤ 0x39) (soon : Silence) (rest : List Reading) :
    readSecond soon '['.toUInt8 ((s.body ++ [s.final]).map .byte ++ rest) =
      (.key (numberedKey s.body s.final), rest) := by
  obtain ⟨parameters, hparameters⟩ := List.head?_eq_some_iff.mp hfirst
  have hbody : s.body = b :: (parameters ++ s.intermediates) := by
    rw [body, hparameters, List.cons_append]
  have hlow : ∀ c ∈ parameters ++ s.intermediates, c.toNat < 0x40 := by
    intro c hc
    exact (s.mem_body (hbody ▸ List.mem_cons_of_mem b hc)).2
  have hlength := s.length_le
  rw [hparameters, List.length_cons] at hlength
  have hlimit : [b].length + (parameters ++ s.intermediates).length ≤ parameterLimit := by
    rw [List.length_append, List.length_singleton, parameterLimit]
    omega
  rw [hbody, List.cons_append, List.map_cons, List.cons_append, readSecond, if_pos rfl,
    if_pos hdigit, readParameters_append soon hlow hlimit s.final_range rest, List.singleton_append]

/-- The first byte behind the bracket of a sequence that is not read to its end. -/
theorem exists_of_not_isReadWhole (h : ¬s.IsReadWhole) :
    ∃ b tail, s.body = b :: tail ∧ ¬(0x30 ≤ b ∧ b ≤ 0x39) := by
  rw [IsReadWhole, not_or] at h
  obtain ⟨b, tail, hbody⟩ := List.exists_cons_of_ne_nil h.1
  refine ⟨b, tail, hbody, fun hdigit => ?_⟩
  cases hparameters : s.parameters with
  | cons c parameters =>
    rw [body, hparameters, List.cons_append, List.cons.injEq] at hbody
    exact h.2 ⟨c, by rw [hparameters]; rfl, hbody.1 ▸ hdigit⟩
  | nil =>
    rw [body, hparameters, List.nil_append] at hbody
    have hrange := s.mem_intermediates b (hbody ▸ List.mem_cons_self)
    simp only [UInt8.le_iff_toNat_le, UInt8.reduceToNat] at hrange hdigit
    omega

/-- What is left of a sequence is printable. -/
theorem mem_unread {b : UInt8} (hb : b ∈ s.unread) : 0x20 ≤ b.toNat ∧ b.toNat < 0x7F := by
  rw [unread] at hb
  split at hb
  · exact absurd hb List.not_mem_nil
  · rcases List.mem_append.mp hb with h | h
    · have hlow := s.mem_body (List.mem_of_mem_tail h)
      omega
    · have hfinal := s.final_range
      rw [List.mem_singleton.mp h]
      simp only [UInt8.le_iff_toNat_le, UInt8.reduceToNat] at hfinal
      omega

private theorem unread_eq_nil_iff : s.unread = [] ↔ s.IsReadWhole := by
  rw [unread]
  split <;> simp [*]

/-- What is read behind the bracket makes up one key. -/
theorem readSecond_body (soon : Silence) (rest : List Reading) :
    ∃ k, (∀ c, k ≠ .char c) ∧
      readSecond soon '['.toUInt8 ((s.body ++ [s.final]).map .byte ++ rest) =
        (.key k, s.unread.map .byte ++ rest) := by
  rw [unread]
  split
  · next hwhole =>
    rcases hwhole with hempty | ⟨b, hfirst, hdigit⟩
    · have hfinal : ¬(0x30 ≤ s.final ∧ s.final ≤ 0x39) := by
        have hrange := s.final_range
        simp only [UInt8.le_iff_toNat_le, UInt8.reduceToNat] at hrange ⊢
        omega
      rw [hempty]
      exact ⟨controlKey s.final, controlKey_ne_char s.final,
        readSecond_of_not_digit hfinal soon rest⟩
    · exact ⟨numberedKey s.body s.final, numberedKey_ne_char s.body s.final,
        s.readSecond_of_digit hfirst hdigit soon rest⟩
  · next hcut =>
    obtain ⟨b, tail, hbody, hb⟩ := s.exists_of_not_isReadWhole hcut
    rw [hbody]
    exact ⟨controlKey b, controlKey_ne_char b, readSecond_of_not_digit hb soon _⟩

/-- **What a decoder makes of a control sequence.** It is read as one key, which is no character;
and nothing of it is left, if and only if nothing or a digit comes behind the bracket. What is left
of any other sequence is all behind the first byte there, and these bytes will be read as characters
that have been typed. -/
theorem read_bytes (input : Input) (rest : List Reading) :
    (∃ k, (∀ c, k ≠ .char c) ∧
      idle.read { input with queue := s.bytes.map .byte ++ rest } =
        (.key k, idle, { input with queue := s.unread.map .byte ++ rest })) ∧
    ((idle.read { input with queue := s.bytes.map .byte ++ rest }).2.2.queue = rest ↔
      s.IsReadWhole) ∧
    ∀ b ∈ s.unread, ∀ queue, idle.read { input with queue := .byte b :: queue } =
      (.key (.char (Char.ofNat b.toNat)), idle, { input with queue }) := by
  have hbytes : s.bytes.map Reading.byte ++ rest =
      .byte 0x1B :: .byte '['.toUInt8 :: ((s.body ++ [s.final]).map .byte ++ rest) := by
    rw [bytes, List.append_assoc, List.map_append]
    rfl
  obtain ⟨k, hk, hread⟩ := s.readSecond_body input.drainedSoon rest
  rw [hbytes, read_introducer, hread]
  refine ⟨⟨k, hk, rfl⟩, ?_, fun b hb queue => ?_⟩
  · rw [List.append_left_eq_self, List.map_eq_nil_iff, unread_eq_nil_iff]
  · obtain ⟨hlow, hhigh⟩ := s.mem_unread hb
    rw [read_idle, readQueue_printable hlow hhigh]

/-- A sequence with a private mark, which shows the cursor. -/
def privateSequence : KeySequence where
  parameters := ['?'.toUInt8, '2'.toUInt8, '5'.toUInt8]
  intermediates := []
  final := 'h'.toUInt8
  mem_parameters := List.forall_mem_cons.mpr
    ⟨by decide, List.forall_mem_cons.mpr ⟨by decide, List.forall_mem_singleton.mpr (by decide)⟩⟩
  mem_intermediates := List.forall_mem_nil _
  final_range := by decide
  length_le := by decide

/-- So there are control sequences that are not read to their end. -/
theorem exists_unread : ¬∀ (s : KeySequence) (input : Input) (rest : List Reading),
    (idle.read { input with queue := s.bytes.map .byte ++ rest }).2.2.queue = rest := by
  intro hall
  exact absurd (hall privateSequence (.ofBytes [] false true none) []) (by decide)

end KeySequence

end Typeline
