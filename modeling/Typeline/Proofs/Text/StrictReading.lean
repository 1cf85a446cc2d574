import Mathlib.Data.List.Basic
import Mathlib.Data.Nat.Bitwise
import Mathlib.Logic.Function.Iterate
import Mathlib.Tactic.SplitIfs
import Typeline.Proofs.Text.Encoding

/-!
# Strict reading

A list of bytes starts with the encoding of at most one character, and strict reading finds that
character. What it asks of the bytes is less than it seems: a first byte that announces a length,
as many later bytes in their form, and a code point that is a character and needs no fewer bytes.
Bytes that spell an overlong form, a surrogate or a number past U+10FFFF fail the last of these, and
all that pass are the encoding of the character.

The code point may also be made up of bits: the first byte is masked, and each later byte fills six
bits that are shifted in. No bit gets lost, so that is the same reading.

## Main definitions

* `Utf8.IsEncoding` : what strict reading asks of a first byte and the bytes behind it.
* `Utf8.readByBits?` : strict reading by masks and shifts.
* `Utf8.afterHead` : the bytes behind the first character.

## Main results

* `Utf8.IsEncoding.encodeChar_eq` : bytes that pass are the encoding of a character.
* `Utf8.head?_eq_some_iff` : strict reading finds what the bytes start with.
* `Utf8.strict_reading` : reading of the first character, and again and again to the end.
-/

namespace Typeline

namespace Utf8

/-! ### Encodings of more than one byte -/

/-- What strict reading asks of a first byte and the bytes behind it: as many later bytes as are
announced, and a code point that is a character and needs no fewer bytes. -/
structure IsEncoding (lead : UInt8) (tail : List UInt8) : Prop where
  two_le : 2 ≤ announcedLength lead
  length_eq : tail.length + 1 = announcedLength lead
  later : ∀ b ∈ tail, isContinuation b = true
  least_le : leastCode (announcedLength lead) ≤ codeOf lead tail
  isValid : (codeOf lead tail).isValidChar

/-- The three lengths of an encoding of more than one byte, with the code point that its bytes
spell. -/
theorem IsEncoding.cases {lead : UInt8} {tail : List UInt8} (h : IsEncoding lead tail) :
    (∃ b₁, tail = [b₁] ∧ 0xC0 ≤ lead.toNat ∧ lead.toNat ≤ 0xDF ∧ 0x80 ≤ b₁.toNat ∧
        b₁.toNat ≤ 0xBF ∧ codeOf lead tail = (lead.toNat - 0xC0) * 64 + (b₁.toNat - 0x80) ∧
        0x80 ≤ codeOf lead tail) ∨
      (∃ b₁ b₂, tail = [b₁, b₂] ∧ 0xE0 ≤ lead.toNat ∧ lead.toNat ≤ 0xEF ∧ 0x80 ≤ b₁.toNat ∧
        b₁.toNat ≤ 0xBF ∧ 0x80 ≤ b₂.toNat ∧ b₂.toNat ≤ 0xBF ∧ codeOf lead tail =
          ((lead.toNat - 0xE0) * 64 + (b₁.toNat - 0x80)) * 64 + (b₂.toNat - 0x80) ∧
        0x800 ≤ codeOf lead tail) ∨
      (∃ b₁ b₂ b₃, tail = [b₁, b₂, b₃] ∧ 0xF0 ≤ lead.toNat ∧ lead.toNat ≤ 0xF7 ∧
        0x80 ≤ b₁.toNat ∧ b₁.toNat ≤ 0xBF ∧ 0x80 ≤ b₂.toNat ∧ b₂.toNat ≤ 0xBF ∧
        0x80 ≤ b₃.toNat ∧ b₃.toNat ≤ 0xBF ∧ codeOf lead tail =
          (((lead.toNat - 0xF0) * 64 + (b₁.toNat - 0x80)) * 64 + (b₂.toNat - 0x80)) * 64 +
            (b₃.toNat - 0x80) ∧
        0x10000 ≤ codeOf lead tail) := by
  obtain ⟨htwo, hlength, hlater, hleast, -⟩ := h
  rcases announcedLength_cases lead with ⟨heq, -⟩ | ⟨heq, hlow, hhigh⟩ | ⟨heq, hlow, hhigh⟩ |
    ⟨heq, hlow, hhigh⟩
  · omega
  · obtain ⟨b₁, rfl⟩ := List.length_eq_one_iff.mp (show tail.length = 1 by omega)
    obtain ⟨h₁, h₁'⟩ := isContinuation_iff.mp (hlater b₁ (by simp))
    rw [heq] at hleast
    refine Or.inl ⟨b₁, rfl, hlow, hhigh, h₁, h₁', ?_, hleast⟩
    rw [codeOf_singleton]
    omega
  · obtain ⟨b₁, b₂, rfl⟩ := List.length_eq_two.mp (show tail.length = 2 by omega)
    obtain ⟨h₁, h₁'⟩ := isContinuation_iff.mp (hlater b₁ (by simp))
    obtain ⟨h₂, h₂'⟩ := isContinuation_iff.mp (hlater b₂ (by simp))
    rw [heq] at hleast
    refine Or.inr (Or.inl ⟨b₁, b₂, rfl, hlow, hhigh, h₁, h₁', h₂, h₂', ?_, hleast⟩)
    rw [codeOf_pair]
    omega
  · obtain ⟨b₁, b₂, b₃, rfl⟩ := List.length_eq_three.mp (show tail.length = 3 by omega)
    obtain ⟨h₁, h₁'⟩ := isContinuation_iff.mp (hlater b₁ (by simp))
    obtain ⟨h₂, h₂'⟩ := isContinuation_iff.mp (hlater b₂ (by simp))
    obtain ⟨h₃, h₃'⟩ := isContinuation_iff.mp (hlater b₃ (by simp))
    rw [heq] at hleast
    refine Or.inr (Or.inr ⟨b₁, b₂, b₃, rfl, hlow, hhigh, h₁, h₁', h₂, h₂', h₃, h₃', ?_, hleast⟩)
    rw [codeOf_triple]
    omega

theorem toNat_ofNat_of_isValidChar {n : Nat} (h : n.isValidChar) : (Char.ofNat n).toNat = n := by
  rw [Char.ofNat, dif_pos h]
  rfl

private theorem ofNat_eq_of_toNat {n : Nat} {b : UInt8} (h : n = b.toNat) : UInt8.ofNat n = b := by
  rw [h, UInt8.ofNat_toNat]

/-- **Bytes in the form of an encoding.** They are the encoding of the character that they spell. -/
theorem IsEncoding.encodeChar_eq {lead : UInt8} {tail : List UInt8} (h : IsEncoding lead tail) :
    encodeChar (Char.ofNat (codeOf lead tail)) = lead :: tail := by
  have hcode := toNat_ofNat_of_isValidChar h.isValid
  rcases h.cases with ⟨b₁, rfl, _, _, _, _, hspelled, hleast⟩ |
    ⟨b₁, b₂, rfl, _, _, _, _, _, _, hspelled, hleast⟩ |
    ⟨b₁, b₂, b₃, rfl, _, _, _, _, _, _, _, _, hspelled, hleast⟩
  · rw [Utf8.encodeChar_eq, hcode, if_neg (by omega), if_pos (by omega),
      ofNat_eq_of_toNat (b := lead) (by omega), ofNat_eq_of_toNat (b := b₁) (by omega)]
  · rw [Utf8.encodeChar_eq, hcode, if_neg (by omega), if_neg (by omega), if_pos (by omega),
      ofNat_eq_of_toNat (b := lead) (by omega), ofNat_eq_of_toNat (b := b₁) (by omega),
      ofNat_eq_of_toNat (b := b₂) (by omega)]
  · rw [Utf8.encodeChar_eq, hcode, if_neg (by omega), if_neg (by omega), if_neg (by omega),
      ofNat_eq_of_toNat (b := lead) (by omega), ofNat_eq_of_toNat (b := b₁) (by omega),
      ofNat_eq_of_toNat (b := b₂) (by omega), ofNat_eq_of_toNat (b := b₃) (by omega)]

/-- The first of the bytes that encode a character outside of ASCII announces the others. -/
theorem exists_isEncoding {c : Char} (h : 0x80 ≤ c.toNat) :
    ∃ lead tail, encodeChar c = lead :: tail ∧ 0x80 ≤ lead.toNat ∧ IsEncoding lead tail ∧
      codeOf lead tail = c.toNat := by
  have hvalid : c.toNat.isValidChar := c.valid
  have hrange : c.toNat < 0xD800 ∨ 0xDFFF < c.toNat ∧ c.toNat < 0x110000 := c.valid
  have htail := toNat_tail c.toNat
  have htail₁ := toNat_tail (c.toNat / 64)
  have htail₂ := toNat_tail (c.toNat / 4096)
  have hlater {n : Nat} : isContinuation (UInt8.ofNat (n % 0x40 + 0x80)) = true :=
    isContinuation_iff.mpr (by rw [toNat_tail]; omega)
  -- It is enough that the bytes spell the character and that it needs no fewer of them.
  suffices hbytes : ∃ lead tail, encodeChar c = lead :: tail ∧ 0x80 ≤ lead.toNat ∧
      2 ≤ announcedLength lead ∧ tail.length + 1 = announcedLength lead ∧
      (∀ b ∈ tail, isContinuation b = true) ∧ leastCode (announcedLength lead) ≤ c.toNat ∧
      codeOf lead tail = c.toNat by
    obtain ⟨lead, tail, hencode, hhigh, htwo, hlength, hall, hleast, hcode⟩ := hbytes
    exact ⟨lead, tail, hencode, hhigh,
      ⟨htwo, hlength, hall, hcode.symm ▸ hleast, hcode.symm ▸ hvalid⟩, hcode⟩
  rw [encodeChar_eq, if_neg (by omega)]
  split
  · have hlead : (UInt8.ofNat (c.toNat / 64 % 0x20 + 0xC0)).toNat = c.toNat / 64 % 0x20 + 0xC0 :=
      toNat_ofNat_of_lt (by omega)
    have hannounced := announcedLength_two (b := UInt8.ofNat (c.toNat / 64 % 0x20 + 0xC0))
      (by omega) (by omega)
    refine ⟨_, _, rfl, by omega, by omega, hannounced.symm,
      List.forall_mem_singleton.mpr hlater, ?_, ?_⟩
    · rw [hannounced]
      exact h
    · rw [codeOf_singleton]
      omega
  · split
    · have hlead : (UInt8.ofNat (c.toNat / 4096 % 0x10 + 0xE0)).toNat =
          c.toNat / 4096 % 0x10 + 0xE0 := toNat_ofNat_of_lt (by omega)
      have hannounced := announcedLength_three (b := UInt8.ofNat (c.toNat / 4096 % 0x10 + 0xE0))
        (by omega) (by omega)
      refine ⟨_, _, rfl, by omega, by omega, hannounced.symm,
        List.forall_mem_cons.mpr ⟨hlater, List.forall_mem_singleton.mpr hlater⟩, ?_, ?_⟩
      · rw [hannounced]
        change 0x800 ≤ c.toNat
        omega
      · rw [codeOf_pair]
        omega
    · have hlead : (UInt8.ofNat (c.toNat / 262144 % 0x08 + 0xF0)).toNat =
          c.toNat / 262144 % 0x08 + 0xF0 := toNat_ofNat_of_lt (by omega)
      have hannounced := announcedLength_four (b := UInt8.ofNat (c.toNat / 262144 % 0x08 + 0xF0))
        (by omega) (by omega)
      refine ⟨_, _, rfl, by omega, by omega, hannounced.symm,
        List.forall_mem_cons.mpr ⟨hlater,
          List.forall_mem_cons.mpr ⟨hlater, List.forall_mem_singleton.mpr hlater⟩⟩, ?_, ?_⟩
      · rw [hannounced]
        change 0x10000 ≤ c.toNat
        omega
      · rw [codeOf_triple]
        omega

/-! ### The first character -/

theorem head?_of_ascii {b : UInt8} (h : b.toNat < 0x80) (rest : List UInt8) :
    head? (b :: rest) = some (Char.ofNat b.toNat, 1) := by
  rw [head?, if_pos (UInt8.lt_iff_toNat_lt.mpr h)]

theorem head?_of_not_ascii {lead : UInt8} (h : 0x80 ≤ lead.toNat) (rest : List UInt8)
    {c : Char} {n : Nat} : head? (lead :: rest) = some (c, n) ↔
      IsEncoding lead (rest.take (announcedLength lead - 1)) ∧
        c = Char.ofNat (codeOf lead (rest.take (announcedLength lead - 1))) ∧
        n = announcedLength lead := by
  have hhigh : ¬lead < 0x80 := by
    simp only [UInt8.lt_iff_toNat_lt, UInt8.reduceToNat]
    omega
  rw [head?, if_neg hhigh, Option.ite_none_right_eq_some, List.all_eq_true, Option.some_inj,
    Prod.mk.injEq]
  constructor
  · rintro ⟨⟨htwo, hlength, hlater, hleast, hvalid⟩, rfl, rfl⟩
    exact ⟨⟨htwo, hlength, hlater, hleast, hvalid⟩, rfl, rfl⟩
  · rintro ⟨⟨htwo, hlength, hlater, hleast, hvalid⟩, rfl, rfl⟩
    exact ⟨⟨htwo, hlength, hlater, hleast, hvalid⟩, rfl, rfl⟩

/-- **The first character.** Strict reading finds the character whose encoding the bytes start with,
and nothing else. -/
theorem head?_eq_some_iff {bytes : List UInt8} {c : Char} {n : Nat} :
    head? bytes = some (c, n) ↔ encodeChar c <+: bytes ∧ n = (encodeChar c).length := by
  constructor
  · intro h
    cases bytes with
    | nil => exact nomatch h
    | cons lead rest =>
      by_cases hascii : lead.toNat < 0x80
      · rw [head?_of_ascii hascii, Option.some_inj, Prod.mk.injEq] at h
        obtain ⟨rfl, rfl⟩ := h
        have hcode : (Char.ofNat lead.toNat).toNat = lead.toNat :=
          toNat_ofNat_of_isValidChar (Or.inl (by omega))
        rw [encodeChar_eq, hcode, if_pos (by omega), UInt8.ofNat_toNat]
        exact ⟨⟨rest, rfl⟩, rfl⟩
      · obtain ⟨hencoding, rfl, rfl⟩ := (head?_of_not_ascii (by omega) rest).mp h
        rw [hencoding.encodeChar_eq, List.length_cons, hencoding.length_eq]
        exact ⟨(List.prefix_cons_inj lead).mpr (List.take_prefix _ rest), rfl⟩
  · rintro ⟨⟨rest, rfl⟩, rfl⟩
    by_cases hascii : c.toNat < 0x80
    · have hbyte : (UInt8.ofNat c.toNat).toNat = c.toNat := toNat_ofNat_of_lt (by omega)
      rw [encodeChar_eq, if_pos (by omega), List.singleton_append, head?_of_ascii (by omega), hbyte,
        Char.ofNat_toNat]
      rfl
    · obtain ⟨lead, tail, hencode, hhigh, hencoding, hcode⟩ := exists_isEncoding (c := c) (by omega)
      have htake : (tail ++ rest).take (announcedLength lead - 1) = tail :=
        List.take_left' (Nat.eq_sub_of_add_eq hencoding.length_eq)
      rw [hencode, List.cons_append, head?_of_not_ascii hhigh, htake, hcode, Char.ofNat_toNat,
        List.length_cons]
      exact ⟨hencoding, rfl, hencoding.length_eq⟩

/-! ### Masks and shifts -/

/-- The bits of a first byte below its length mark, for each length. -/
def leadMask : Nat → UInt8
  | 2 => 0x1F
  | 3 => 0x0F
  | _ => 0x07

/-- Shift a code point by six bits and fill them from a byte. -/
def shiftIn (code : UInt32) (b : UInt8) : UInt32 := code <<< 6 ||| (b &&& 0x3F).toUInt32

/-- The code point that masks and shifts make up from a first byte and the bytes behind it. -/
def codeByBits (lead : UInt8) (tail : List UInt8) : UInt32 :=
  tail.foldl shiftIn (lead &&& leadMask (tail.length + 1)).toUInt32

/-- Strict reading by masks and shifts. In no bytes there is nothing to read, and a byte that starts
no encoding counts as U+FFFD. -/
def readByBits? : List UInt8 → Option (Char × Nat)
  | [] => none
  | lead :: rest =>
    let length := announcedLength lead
    if length = 1 then
      some (if lead ≤ 0x7F then (Char.ofNat lead.toNat, 1) else (replacement, 1))
    else
      let tail := rest.take (length - 1)
      let code := (codeByBits lead tail).toNat
      if tail.length + 1 = length ∧ (tail.all fun b => b &&& 0xC0 == 0x80) ∧ code.isValidChar
          ∧ (Char.ofNat code).utf8Size = length then
        some (Char.ofNat code, length)
      else some (replacement, 1)

theorem lengths_of_later {n : Nat} (h : 1 ≤ n) (h' : n ≤ 3) : n = 1 ∨ n = 2 ∨ n = 3 := by omega

private theorem and_mask_eq_isContinuation (b : UInt8) :
    (b &&& 0xC0 == 0x80) = isContinuation b := by
  have hall : ∀ n < 256, (UInt8.ofNat n &&& 0xC0 == 0x80) = isContinuation (UInt8.ofNat n) := by
    decide +kernel
  have hb := hall b.toNat b.toNat_lt
  rwa [UInt8.ofNat_toNat] at hb

private theorem toNat_and_leadMask {n : Nat} (h : 1 ≤ n) (h' : n ≤ 3) (lead : UInt8) :
    (lead &&& leadMask (n + 1)).toNat = lead.toNat % (64 >>> n) := by
  rw [UInt8.toNat_and]
  rcases lengths_of_later h h' with rfl | rfl | rfl
  · exact Nat.and_two_pow_sub_one_eq_mod lead.toNat 5
  · exact Nat.and_two_pow_sub_one_eq_mod lead.toNat 4
  · exact Nat.and_two_pow_sub_one_eq_mod lead.toNat 3

/-- Filling shifted bits is adding, as long as no bit gets lost. -/
theorem toNat_shiftIn {code : UInt32} (h : code.toNat < 2 ^ 26) (b : UInt8) :
    (shiftIn code b).toNat = code.toNat * 64 + b.toNat % 64 := by
  have hshift : (code <<< 6).toNat = code.toNat <<< 6 := by
    rw [UInt32.toNat_shiftLeft]
    refine Nat.mod_eq_of_lt ?_
    rw [Nat.shiftLeft_eq]
    change code.toNat * 64 < 2 ^ 32
    omega
  have hmask : (b &&& 0x3F).toUInt32.toNat = b.toNat % 64 := by
    rw [UInt8.toNat_toUInt32, UInt8.toNat_and]
    exact Nat.and_two_pow_sub_one_eq_mod b.toNat 6
  rw [shiftIn, UInt32.toNat_or, hshift, hmask,
    ← Nat.shiftLeft_add_eq_or_of_lt (i := 6) (Nat.mod_lt _ (by decide)), Nat.shiftLeft_eq]

private theorem toNat_foldl_shiftIn {tail : List UInt8} {code : UInt32}
    (h : (code.toNat + 1) * 64 ^ tail.length ≤ 2 ^ 32) :
    (tail.foldl shiftIn code).toNat =
      tail.foldl (fun code b => code * 64 + b.toNat % 64) code.toNat := by
  induction tail generalizing code with
  | nil => rfl
  | cons b tail ih =>
    rw [List.length_cons, Nat.pow_succ', ← Nat.mul_assoc] at h
    have hcode : code.toNat < 2 ^ 26 := by
      have := Nat.le_trans (Nat.le_mul_of_pos_right _ (Nat.pow_pos (by decide))) h
      omega
    have hstep := toNat_shiftIn hcode b
    rw [List.foldl_cons, List.foldl_cons, ih, hstep]
    refine Nat.le_trans (Nat.mul_le_mul_right _ ?_) h
    omega

theorem toNat_codeByBits {lead : UInt8} {tail : List UInt8} (h : 1 ≤ tail.length)
    (h' : tail.length ≤ 3) : (codeByBits lead tail).toNat = codeOf lead tail := by
  have hlead : (lead &&& leadMask (tail.length + 1)).toUInt32.toNat =
      lead.toNat % (64 >>> tail.length) := by
    rw [UInt8.toNat_toUInt32, toNat_and_leadMask h h']
  rw [codeByBits, toNat_foldl_shiftIn, hlead, codeOf]
  rw [hlead]
  rcases lengths_of_later h h' with hlength | hlength | hlength <;>
    · rw [hlength]
      simp only [Nat.reduceShiftRight]
      omega

/-- Later bytes add six bits each. -/
theorem foldl_lt {bound code : Nat} (h : code < bound) (tail : List UInt8) :
    tail.foldl (fun code b => code * 64 + b.toNat % 64) code < bound * 64 ^ tail.length := by
  induction tail generalizing bound code with
  | nil => rwa [List.length_nil, Nat.pow_zero, Nat.mul_one]
  | cons b tail ih =>
    rw [List.length_cons, Nat.pow_succ', ← Nat.mul_assoc]
    exact ih (show code * 64 + b.toNat % 64 < bound * 64 by omega)

private theorem utf8Size_eq (c : Char) : c.utf8Size =
    if c.toNat ≤ 0x7F then 1
    else if c.toNat ≤ 0x7FF then 2
    else if c.toNat ≤ 0xFFFF then 3
    else 4 := rfl

/-- A code point needs as many bytes as it was spelled with if it is not too small for them. -/
theorem utf8Size_eq_iff {lead : UInt8} {tail : List UInt8} (h : 1 ≤ tail.length)
    (h' : tail.length ≤ 3) (hvalid : (codeOf lead tail).isValidChar) :
    (Char.ofNat (codeOf lead tail)).utf8Size = tail.length + 1 ↔
      leastCode (tail.length + 1) ≤ codeOf lead tail := by
  have hbound : codeOf lead tail < (64 >>> tail.length) * 64 ^ tail.length := by
    refine foldl_lt (Nat.mod_lt _ ?_) tail
    rcases lengths_of_later h h' with hlength | hlength | hlength <;>
      · rw [hlength]
        decide
  rw [utf8Size_eq, toNat_ofNat_of_isValidChar hvalid]
  rcases lengths_of_later h h' with hlength | hlength | hlength <;>
    · rw [hlength] at hbound ⊢
      simp only [leastCode, Nat.reduceAdd, Nat.reduceShiftRight, Nat.reducePow, Nat.reduceMul]
        at hbound ⊢
      split_ifs <;> omega

/-- What masks and shifts ask of some bytes is the form of an encoding. -/
theorem isEncoding_iff_byBits {lead : UInt8} {tail : List UInt8} (h : announcedLength lead ≠ 1) :
    (tail.length + 1 = announcedLength lead ∧ (tail.all fun b => b &&& 0xC0 == 0x80) = true ∧
      (codeByBits lead tail).toNat.isValidChar ∧
      (Char.ofNat (codeByBits lead tail).toNat).utf8Size = announcedLength lead) ↔
        IsEncoding lead tail := by
  have hlengths := announcedLength_cases lead
  simp only [and_mask_eq_isContinuation, List.all_eq_true]
  constructor
  · rintro ⟨hlength, hlater, hvalid, hsize⟩
    rw [toNat_codeByBits (by omega) (by omega)] at hvalid hsize
    refine ⟨by omega, hlength, hlater, ?_, hvalid⟩
    rw [← hlength] at hsize ⊢
    exact (utf8Size_eq_iff (by omega) (by omega) hvalid).mp hsize
  · rintro ⟨-, hlength, hlater, hleast, hvalid⟩
    rw [toNat_codeByBits (by omega) (by omega)]
    refine ⟨hlength, hlater, hvalid, ?_⟩
    rw [← hlength] at hleast ⊢
    exact (utf8Size_eq_iff (by omega) (by omega) hvalid).mpr hleast

/-- **Masks and shifts.** They read the same first character. -/
theorem readByBits?_cons (lead : UInt8) (rest : List UInt8) :
    readByBits? (lead :: rest) = some (head (lead :: rest)) := by
  have hlengths := announcedLength_cases lead
  by_cases hascii : lead.toNat < 0x80
  · have hle : lead ≤ 0x7F := Nat.le_of_lt_succ hascii
    rw [readByBits?, if_pos (by omega), if_pos hle, head, head?_of_ascii hascii, Option.getD_some]
  · have hle : ¬lead ≤ 0x7F := fun hle => hascii (Nat.lt_succ_of_le hle)
    have hread := @head?_of_not_ascii lead (by omega) rest
    -- Bytes in which strict reading finds nothing are not in the form of an encoding.
    have hnone (hnot : ¬IsEncoding lead (rest.take (announcedLength lead - 1))) :
        head (lead :: rest) = (replacement, 1) := by
      rw [head, Option.eq_none_iff_forall_ne_some.mpr fun _ hsome => hnot (hread.mp hsome).1,
        Option.getD_none]
    by_cases hone : announcedLength lead = 1
    · rw [readByBits?, if_pos hone, if_neg hle, hnone fun hencoding => ?_]
      have := hencoding.two_le
      omega
    · have hbits := @isEncoding_iff_byBits lead (rest.take (announcedLength lead - 1)) hone
      rw [readByBits?, if_neg hone]
      by_cases hencoding : IsEncoding lead (rest.take (announcedLength lead - 1))
      · have hlength := hencoding.length_eq
        rw [head, hread.mpr ⟨hencoding, rfl, rfl⟩, Option.getD_some,
          ← toNat_codeByBits (by omega) (by omega)]
        exact if_pos (hbits.mpr hencoding)
      · rw [hnone hencoding]
        exact if_neg (mt hbits.mp hencoding)

/-! ### Reading to the end -/

/-- The bytes behind the first character, or behind the first byte if they start with none. -/
def afterHead (bytes : List UInt8) : List UInt8 := bytes.drop (head bytes).2

/-- **The first character, or U+FFFD.** -/
theorem head_eq_iff {bytes : List UInt8} {c : Char} {n : Nat} :
    head bytes = (c, n) ↔ (encodeChar c <+: bytes ∧ n = (encodeChar c).length) ∨
      ((∀ d, ¬encodeChar d <+: bytes) ∧ c = replacement ∧ n = 1) := by
  cases hhead : head? bytes with
  | none =>
    have hnone : ∀ d, ¬encodeChar d <+: bytes := fun d hd =>
      nomatch hhead.symm.trans (head?_eq_some_iff.mpr ⟨hd, rfl⟩)
    rw [head, hhead, Option.getD_none, Prod.mk.injEq]
    constructor
    · rintro ⟨rfl, rfl⟩
      exact Or.inr ⟨hnone, rfl, rfl⟩
    · rintro (⟨hc, -⟩ | ⟨-, rfl, rfl⟩)
      · exact absurd hc (hnone c)
      · exact ⟨rfl, rfl⟩
  | some found =>
    obtain ⟨d, m⟩ := found
    have hd := (head?_eq_some_iff.mp hhead).1
    rw [head, hhead, Option.getD_some, ← head?_eq_some_iff, hhead, Option.some_inj]
    exact ⟨Or.inl, fun h => h.resolve_right fun hnone => hnone.1 d hd⟩

theorem head_encodeChar_append (c : Char) (bytes : List UInt8) :
    head (encodeChar c ++ bytes) = (c, (encodeChar c).length) :=
  head_eq_iff.mpr (Or.inl ⟨List.prefix_append _ _, rfl⟩)

/-- A character takes a byte at least, and no more than there are. -/
theorem head_snd_bounds (b : UInt8) (rest : List UInt8) :
    0 < (head (b :: rest)).2 ∧ (head (b :: rest)).2 ≤ (b :: rest).length := by
  rcases head_eq_iff.mp (Prod.mk.eta (p := head (b :: rest))).symm with
    ⟨hstarts, hlength⟩ | ⟨-, -, hone⟩
  · rw [hlength]
    exact ⟨List.length_pos_of_ne_nil (encodeChar_ne_nil _), hstarts.length_le⟩
  · rw [hone]
    exact ⟨Nat.one_pos, Nat.succ_pos _⟩

theorem steps_cons (b : UInt8) (rest : List UInt8) :
    steps (b :: rest) = head (b :: rest) :: steps (afterHead (b :: rest)) := by
  obtain ⟨n, hn⟩ := Nat.exists_eq_add_one.mpr (head_snd_bounds b rest).1
  rw [steps, afterHead]
  generalize head (b :: rest) = found at hn
  obtain ⟨c, taken⟩ := found
  obtain rfl : taken = n + 1 := hn
  rfl

/-- The rounds of reading to the end: each goes on behind what the last one has read, none begins at
the end, and they take no more rounds than there are bytes. -/
theorem exists_rounds (bytes : List UInt8) : ∃ rounds ≤ bytes.length,
    afterHead^[rounds] bytes = [] ∧ (∀ i < rounds, afterHead^[i] bytes ≠ []) ∧
      steps bytes = (List.range rounds).map (fun i => head (afterHead^[i] bytes)) ∧
      ((steps bytes).map Prod.snd).sum = bytes.length := by
  induction hlength : bytes.length using Nat.strong_induction_on generalizing bytes with
  | _ length ih =>
    cases bytes with
    | nil =>
      refine ⟨0, Nat.zero_le _, rfl, fun i hi => absurd hi (Nat.not_lt_zero i), ?_, ?_⟩
      · rw [steps, List.range_zero, List.map_nil]
      · rw [steps, ← hlength, List.map_nil, List.sum_nil, List.length_nil]
    | cons b rest =>
      obtain ⟨hpos, hle⟩ := head_snd_bounds b rest
      have hshorter : (afterHead (b :: rest)).length = (b :: rest).length - (head (b :: rest)).2 :=
        List.length_drop
      obtain ⟨rounds, hrounds, hend, hbefore, hsteps, hsum⟩ :=
        ih (afterHead (b :: rest)).length (by omega) (afterHead (b :: rest)) rfl
      refine ⟨rounds + 1, by omega, hend, fun i hi => ?_, ?_, ?_⟩
      · cases i with
        | zero => exact List.cons_ne_nil b rest
        | succ i => exact hbefore i (Nat.lt_of_succ_lt_succ hi)
      · rw [steps_cons, hsteps, List.range_succ_eq_map, List.map_cons, List.map_map]
        rfl
      · rw [steps_cons, List.map_cons, List.sum_cons, hsum]
        omega

/-- The characters of a text are read one after another. -/
theorem steps_encode (t : Text) :
    steps (encode t) = t.map fun c => (c, (encodeChar c).length) := by
  induction t with
  | nil => simp [encode, steps]
  | cons c t ih =>
    obtain ⟨b, rest, hcons⟩ : ∃ b rest, encode (c :: t) = b :: rest :=
      List.exists_cons_of_ne_nil fun hnil =>
        encodeChar_ne_nil c (List.append_eq_nil_iff.mp (List.flatMap_cons.symm.trans hnil)).1
    have happend : encode (c :: t) = encodeChar c ++ encode t := List.flatMap_cons
    have hrest : afterHead (b :: rest) = encode t := by
      rw [← hcons, happend, afterHead, head_encodeChar_append, List.drop_left]
    rw [hcons, steps_cons, hrest, ih, ← hcons, happend, head_encodeChar_append, List.map_cons]

/-- **Strict reading.** If some bytes start with the encoding of a character, this character is
read and its bytes are taken; in all other cases U+FFFD is read and one byte is taken. By masks and
shifts the same is read, and nothing in no bytes. Read again and again behind what was taken, any
bytes come to their end, within no more rounds than there are bytes and without a round past the
end; and the bytes of a text give back its characters. -/
theorem strict_reading (bytes : List UInt8) :
    (∀ c n, head bytes = (c, n) ↔ (encodeChar c <+: bytes ∧ n = (encodeChar c).length) ∨
      ((∀ d, ¬encodeChar d <+: bytes) ∧ c = replacement ∧ n = 1)) ∧
    readByBits? bytes = (if bytes = [] then none else some (head bytes)) ∧
    (∃ rounds ≤ bytes.length, afterHead^[rounds] bytes = [] ∧
      (∀ i < rounds, afterHead^[i] bytes ≠ []) ∧
      steps bytes = (List.range rounds).map (fun i => head (afterHead^[i] bytes)) ∧
      ((steps bytes).map Prod.snd).sum = bytes.length) ∧
    ∀ t, steps (encode t) = t.map fun c => (c, (encodeChar c).length) := by
  refine ⟨fun c n => head_eq_iff, ?_, exists_rounds bytes, steps_encode⟩
  cases bytes with
  | nil => rfl
  | cons b rest => exact readByBits?_cons b rest

end Utf8

end Typeline
