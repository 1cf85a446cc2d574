import Typeline.Key.Decoder
import Typeline.Proofs.Text.Encoding
import Typeline.Text.CharWidth

/-!
# Characters from the keyboard

A terminal sends a character that is typed as its UTF-8 form, and a decoder reads this form as the
character. An ASCII character is read from its one byte, unless it is a control character. The bytes
of any other character are collected until there are as many as the first one announces; then they
are read strictly, which gives the character back.

## Main definitions

* `Utf8.Spells` : the bytes of a character outside ASCII.

## Main results

* `Utf8.Spells.head_eq` : strict reading of the bytes of a character.
* `KeyDecoder.readQueue_encodeChar` : reading a character that is typed.
-/

namespace Typeline

namespace Utf8

/-- The bytes of a character outside ASCII: a first one, which announces their number, and later
ones. -/
structure Spells (lead : UInt8) (tail : List UInt8) (c : Char) : Prop where
  encodeChar_eq : encodeChar c = lead :: tail
  lead_high : 0x80 ≤ lead.toNat
  tail_ne_nil : tail ≠ []
  announced : announcedLength lead = tail.length + 1
  continuation : ∀ b ∈ tail, isContinuation b = true
  code : codeOf lead tail = c.toNat
  least : leastCode (tail.length + 1) ≤ c.toNat

private theorem exists_spells {c : Char} (h : 0x80 ≤ c.toNat) :
    ∃ lead tail, Spells lead tail c := by
  have hvalid : c.toNat < 0xD800 ∨ 0xDFFF < c.toNat ∧ c.toNat < 0x110000 := c.valid
  have htail := toNat_tail c.toNat
  have htail₁ := toNat_tail (c.toNat / 64)
  have htail₂ := toNat_tail (c.toNat / 4096)
  have hlater (n : Nat) : isContinuation (UInt8.ofNat (n % 0x40 + 0x80)) = true := by
    have htoNat := toNat_tail n
    exact isContinuation_iff.mpr ⟨by omega, by omega⟩
  have heq := encodeChar_eq c
  rw [if_neg (by omega)] at heq
  split at heq
  · have hlead : (UInt8.ofNat (c.toNat / 64 % 0x20 + 0xC0)).toNat = c.toNat / 64 % 0x20 + 0xC0 :=
      toNat_ofNat_of_lt (by omega)
    refine ⟨_, _, heq, by omega, by simp, announcedLength_two (by omega) (by omega), ?_, ?_, ?_⟩
    · exact List.forall_mem_singleton.mpr (hlater c.toNat)
    · simp only [codeOf, List.foldl_cons, List.foldl_nil, List.length_cons, List.length_nil,
        Nat.reduceAdd, Nat.reduceShiftRight]
      omega
    · simp only [List.length_cons, List.length_nil, leastCode]
      omega
  · split at heq
    · have hlead : (UInt8.ofNat (c.toNat / 4096 % 0x10 + 0xE0)).toNat =
          c.toNat / 4096 % 0x10 + 0xE0 := toNat_ofNat_of_lt (by omega)
      refine ⟨_, _, heq, by omega, by simp, announcedLength_three (by omega) (by omega), ?_, ?_, ?_⟩
      · exact List.forall_mem_cons.mpr
          ⟨hlater (c.toNat / 64), List.forall_mem_singleton.mpr (hlater c.toNat)⟩
      · simp only [codeOf, List.foldl_cons, List.foldl_nil, List.length_cons, List.length_nil,
          Nat.reduceAdd, Nat.reduceShiftRight]
        omega
      · simp only [List.length_cons, List.length_nil, leastCode]
        omega
    · have hlead : (UInt8.ofNat (c.toNat / 262144 % 0x08 + 0xF0)).toNat =
          c.toNat / 262144 % 0x08 + 0xF0 := toNat_ofNat_of_lt (by omega)
      refine ⟨_, _, heq, by omega, by simp, announcedLength_four (by omega) (by omega), ?_, ?_, ?_⟩
      · exact List.forall_mem_cons.mpr ⟨hlater (c.toNat / 4096), List.forall_mem_cons.mpr
          ⟨hlater (c.toNat / 64), List.forall_mem_singleton.mpr (hlater c.toNat)⟩⟩
      · simp only [codeOf, List.foldl_cons, List.foldl_nil, List.length_cons, List.length_nil,
          Nat.reduceAdd, Nat.reduceShiftRight]
        omega
      · simp only [List.length_cons, List.length_nil, leastCode]
        omega

/-- Strict reading of the bytes of a character gives it back. -/
theorem Spells.head_eq {lead : UInt8} {tail : List UInt8} {c : Char} (h : Spells lead tail c) :
    head (lead :: tail) = (c, tail.length + 1) := by
  have hhigh : ¬lead < 0x80 := by
    have := h.lead_high
    simp only [UInt8.lt_iff_toNat_lt, UInt8.reduceToNat]
    omega
  have hpos := List.length_pos_iff.mpr h.tail_ne_nil
  have hvalid : c.toNat.isValidChar := c.valid
  have hall : tail.all isContinuation = true := List.all_eq_true.mpr h.continuation
  rw [head, head?, if_neg hhigh, h.announced]
  simp only [Nat.add_sub_cancel, List.take_length, h.code]
  rw [if_pos ⟨by omega, trivial, hall, h.least, hvalid⟩, Option.getD_some, Char.ofNat_toNat]

end Utf8

namespace KeyDecoder

open Utf8

/-! ### Bytes -/

private theorem asciiKey_of_printable {b : UInt8} (h : 0x20 ≤ b.toNat) (h' : b.toNat < 0x7F) :
    asciiKey b = .char (Char.ofNat b.toNat) := by
  unfold asciiKey
  split <;> first | omega | exact if_neg (by omega)

theorem accept_ascii {b : UInt8} (hescape : b ≠ 0x1B) (hascii : b.toNat < 0x80) :
    idle.accept b = (idle, .key (asciiKey b)) := by
  simp only [accept, idle]
  rw [if_neg hescape, if_pos (UInt8.lt_iff_toNat_lt.mpr hascii)]

/-- A key that one byte completes is read from it. -/
theorem readQueue_of_accept {d d' : KeyDecoder} {b : UInt8} {k : Key}
    (h : d.accept b = (d', .key k)) (drained soon : Silence) (queue : List Reading) :
    readQueue drained soon d (.byte b :: queue) = (.key k, d', queue) := by
  rw [readQueue, h]

theorem readQueue_of_more {d d' : KeyDecoder} {b : UInt8} (h : d.accept b = (d', .more))
    (drained soon : Silence) (queue : List Reading) :
    readQueue drained soon d (.byte b :: queue) = readQueue drained soon d' queue := by
  rw [readQueue, h]

theorem readQueue_printable {b : UInt8} (h : 0x20 ≤ b.toNat) (h' : b.toNat < 0x7F)
    (drained soon : Silence) (queue : List Reading) :
    readQueue drained soon idle (.byte b :: queue) =
      (.key (.char (Char.ofNat b.toNat)), idle, queue) := by
  have hescape : b ≠ 0x1B := by
    rintro rfl
    exact absurd h (by decide)
  rw [readQueue_of_accept (accept_ascii hescape (by omega)), asciiKey_of_printable h h']

/-- An idle decoder reads from the queue alone. -/
theorem read_idle (input : Input) : idle.read input =
    ((readQueue input.drained input.drainedSoon idle input.queue).1,
      (readQueue input.drained input.drainedSoon idle input.queue).2.1,
      { input with queue := (readQueue input.drained input.drainedSoon idle input.queue).2.2 }) :=
  rfl

/-! ### Characters -/

/-- The later bytes of a character are collected until there are as many as were announced. -/
theorem readQueue_tail {lead : UInt8} {seen tail : List UInt8} (hne : tail ≠ [])
    (hannounced : announcedLength lead = seen.length + tail.length + 1)
    (htail : ∀ b ∈ tail, isContinuation b = true) (drained soon : Silence)
    (queue : List Reading) :
    readQueue drained soon ⟨lead :: seen, none⟩ (tail.map .byte ++ queue) =
      (.key (.char (head (lead :: (seen ++ tail))).1), idle, queue) := by
  induction tail generalizing seen with
  | nil => exact absurd rfl hne
  | cons b tail ih =>
    rw [List.length_cons] at hannounced
    have hb := htail b List.mem_cons_self
    have haccept : accept ⟨lead :: seen, none⟩ b =
        if announcedLength lead ≤ (lead :: (seen ++ [b])).length then
          (idle, .key (.char (head (lead :: (seen ++ [b]))).1))
        else (⟨lead :: (seen ++ [b]), none⟩, .more) := by
      simp only [accept]
      rw [hb, Bool.not_true, if_neg Bool.false_ne_true]
    simp only [List.length_cons, List.length_append, List.length_nil] at haccept
    cases tail with
    | nil =>
      rw [List.length_nil] at hannounced
      rw [if_pos (by omega)] at haccept
      exact readQueue_of_accept haccept drained soon queue
    | cons b' tail =>
      rw [List.length_cons] at hannounced
      rw [if_neg (by omega)] at haccept
      have hrest := @ih (seen ++ [b]) (by simp)
        (by simp only [List.length_append, List.length_cons, List.length_nil]; omega)
        (fun c hc => htail c (List.mem_cons_of_mem b hc))
      rw [List.append_assoc, List.singleton_append] at hrest
      exact (readQueue_of_more haccept drained soon _).trans hrest

/-- **Reading a character.** A decoder reads the bytes of a character that is no control character
of ASCII as that character, and what follows them is left. -/
theorem readQueue_encodeChar {c : Char} (hc : isAsciiControl c = false) (drained soon : Silence)
    (queue : List Reading) :
    readQueue drained soon idle ((encodeChar c).map .byte ++ queue) =
      (.key (.char c), idle, queue) := by
  simp only [isAsciiControl, Bool.or_eq_false_iff, decide_eq_false_iff_not, beq_eq_false_iff_ne]
    at hc
  by_cases hascii : c.toNat < 0x80
  · have hbyte : (UInt8.ofNat c.toNat).toNat = c.toNat := toNat_ofNat_of_lt (by omega)
    rw [Utf8.encodeChar_eq, if_pos (by omega), List.map_singleton, List.singleton_append,
      readQueue_printable (by omega) (by omega), hbyte, Char.ofNat_toNat]
  · obtain ⟨lead, tail, h⟩ := exists_spells (Nat.le_of_not_lt hascii)
    have hpos := List.length_pos_iff.mpr h.tail_ne_nil
    have hhigh := h.lead_high
    have haccept : idle.accept lead = (⟨[lead], none⟩, .more) := by
      have hescape : lead ≠ 0x1B := by
        rintro rfl
        exact absurd hhigh (by decide)
      have hnotAscii : ¬lead < 0x80 := by
        simp only [UInt8.lt_iff_toNat_lt, UInt8.reduceToNat]
        omega
      have hannounced := h.announced
      simp only [accept, idle]
      rw [if_neg hescape, if_neg hnotAscii, if_neg (by omega)]
    rw [h.encodeChar_eq, List.map_cons, List.cons_append, readQueue_of_more haccept,
      readQueue_tail h.tail_ne_nil (by rw [h.announced, List.length_nil, Nat.zero_add])
        h.continuation, List.nil_append, h.head_eq]

end KeyDecoder

end Typeline
