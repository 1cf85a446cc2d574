import Mathlib.Tactic.SplitIfs
import Typeline.Text.Utf8

/-!
# Reading back what was encoded

The bytes of a character are read as that character, whichever of the four lengths its encoding
has, and reading is then again between two characters. Before the last byte of an encoding nothing
is found, so a character that is cut short at the end of the bytes is one stray piece.

## Main definitions

* `Utf8.scanAll` : reading bytes one by one.

## Main results

* `Utf8.scanAll_encodeChar` : the bytes of a character are read as that character.
* `Utf8.lossy_encode` : the bytes of a text are read as that text.
* `Utf8.lossy_encode_of_cutShort` : and so they are if a character behind them is cut short.
-/

namespace Typeline

namespace Utf8

theorem encode_append (t u : Text) : encode (t ++ u) = encode t ++ encode u :=
  List.flatMap_append

/-- Read bytes one by one after the bytes `seen` of an encoding under way. -/
def scanAll (seen : List UInt8) : List UInt8 → List UInt8 × List Piece
  | [] => (seen, [])
  | b :: rest =>
    ((scanAll (scan seen b).1 rest).1, (scan seen b).2 ++ (scanAll (scan seen b).1 rest).2)

/-! ### Bytes by their values -/

/-- What a first byte announces, by its value. -/
theorem announcedLength_cases (b : UInt8) :
    (announcedLength b = 1 ∧ (b.toNat < 0xC0 ∨ 0xF7 < b.toNat)) ∨
      (announcedLength b = 2 ∧ 0xC0 ≤ b.toNat ∧ b.toNat ≤ 0xDF) ∨
      (announcedLength b = 3 ∧ 0xE0 ≤ b.toNat ∧ b.toNat ≤ 0xEF) ∨
      (announcedLength b = 4 ∧ 0xF0 ≤ b.toNat ∧ b.toNat ≤ 0xF7) := by
  simp only [announcedLength, UInt8.le_iff_toNat_le, UInt8.reduceToNat]
  split_ifs <;> omega

theorem isContinuation_iff {b : UInt8} :
    isContinuation b = true ↔ 0x80 ≤ b.toNat ∧ b.toNat ≤ 0xBF := by
  simp only [isContinuation, decide_eq_true_eq, UInt8.le_iff_toNat_le, UInt8.reduceToNat]

theorem isLead_iff {b : UInt8} : isLead b = true ↔ 0xC2 ≤ b.toNat ∧ b.toNat ≤ 0xF4 := by
  simp only [isLead, decide_eq_true_eq, UInt8.le_iff_toNat_le, UInt8.reduceToNat]

/-- What is asked of a second byte. -/
theorem continues_iff {lead b : UInt8} : continues [lead] b = true ↔
    0x80 ≤ b.toNat ∧ b.toNat ≤ 0xBF ∧ (lead.toNat = 0xE0 → 0xA0 ≤ b.toNat) ∧
      (lead.toNat = 0xED → b.toNat ≤ 0x9F) ∧ (lead.toNat = 0xF0 → 0x90 ≤ b.toNat) ∧
      (lead.toNat = 0xF4 → b.toNat ≤ 0x8F) := by
  simp only [continues, ← UInt8.toNat_inj, UInt8.le_iff_toNat_le, UInt8.reduceToNat,
    Bool.ite_eq_true_distrib, decide_eq_true_eq, isContinuation_iff]
  split_ifs <;> omega

theorem codeOf_singleton (lead b₁ : UInt8) :
    codeOf lead [b₁] = lead.toNat % 32 * 64 + b₁.toNat % 64 := rfl

theorem codeOf_pair (lead b₁ b₂ : UInt8) :
    codeOf lead [b₁, b₂] = (lead.toNat % 16 * 64 + b₁.toNat % 64) * 64 + b₂.toNat % 64 := by
  simp [codeOf]

theorem codeOf_triple (lead b₁ b₂ b₃ : UInt8) : codeOf lead [b₁, b₂, b₃] =
    ((lead.toNat % 8 * 64 + b₁.toNat % 64) * 64 + b₂.toNat % 64) * 64 + b₃.toNat % 64 := by
  simp [codeOf]

/-! ### Reading a character -/

private theorem scanFirst_of_ascii {b : UInt8} (h : b.toNat < 0x80) :
    scanFirst b = ([], [.char (Char.ofNat b.toNat)]) := by
  rw [scanFirst, if_pos (UInt8.lt_iff_toNat_lt.mpr h)]

theorem scanFirst_of_lead {b : UInt8} (h : 0xC2 ≤ b.toNat) (h' : b.toNat ≤ 0xF4) :
    scanFirst b = ([b], []) := by
  have hascii : ¬b < 0x80 := by
    simp only [UInt8.lt_iff_toNat_lt, UInt8.reduceToNat]
    omega
  rw [scanFirst, if_neg hascii, if_pos (isLead_iff.mpr ⟨h, h'⟩)]

theorem continues_later {lead c b : UInt8} {tail : List UInt8} (h : 0x80 ≤ b.toNat)
    (h' : b.toNat ≤ 0xBF) : continues (lead :: c :: tail) b = true :=
  isContinuation_iff.mpr ⟨h, h'⟩

theorem announcedLength_two {b : UInt8} (h : 0xC0 ≤ b.toNat) (h' : b.toNat ≤ 0xDF) :
    announcedLength b = 2 := by
  have := announcedLength_cases b
  omega

theorem announcedLength_three {b : UInt8} (h : 0xE0 ≤ b.toNat) (h' : b.toNat ≤ 0xEF) :
    announcedLength b = 3 := by
  have := announcedLength_cases b
  omega

theorem announcedLength_four {b : UInt8} (h : 0xF0 ≤ b.toNat) (h' : b.toNat ≤ 0xF7) :
    announcedLength b = 4 := by
  have := announcedLength_cases b
  omega

theorem scan_of_continues {lead b : UInt8} {tail : List UInt8}
    (h : continues (lead :: tail) b = true) :
    scan (lead :: tail) b =
      if tail.length + 2 = announcedLength lead then
        ([], [.char (Char.ofNat (codeOf lead (tail ++ [b])))])
      else (lead :: tail ++ [b], []) := by
  rw [scan, if_pos h]
  rfl

theorem toNat_ofNat_of_lt {n : Nat} (h : n < 256) : (UInt8.ofNat n).toNat = n := by
  rw [UInt8.toNat_ofNat', Nat.mod_eq_of_lt h]

theorem encodeChar_eq (c : Char) : encodeChar c =
    if c.toNat ≤ 0x7F then [UInt8.ofNat c.toNat]
    else if c.toNat ≤ 0x7FF then
      [UInt8.ofNat (c.toNat / 64 % 0x20 + 0xC0), UInt8.ofNat (c.toNat % 0x40 + 0x80)]
    else if c.toNat ≤ 0xFFFF then
      [UInt8.ofNat (c.toNat / 4096 % 0x10 + 0xE0), UInt8.ofNat (c.toNat / 64 % 0x40 + 0x80),
        UInt8.ofNat (c.toNat % 0x40 + 0x80)]
    else
      [UInt8.ofNat (c.toNat / 262144 % 0x08 + 0xF0), UInt8.ofNat (c.toNat / 4096 % 0x40 + 0x80),
        UInt8.ofNat (c.toNat / 64 % 0x40 + 0x80), UInt8.ofNat (c.toNat % 0x40 + 0x80)] :=
  rfl

/-- The byte that spells the lowest of the bits of a code point. -/
theorem toNat_tail (n : Nat) : (UInt8.ofNat (n % 0x40 + 0x80)).toNat = n % 0x40 + 0x80 :=
  toNat_ofNat_of_lt (by omega)

/-- The bytes of a character are the character itself or lie outside ASCII. -/
theorem toNat_of_mem_encodeChar {b : UInt8} {c : Char} (h : b ∈ encodeChar c) :
    b.toNat = c.toNat ∧ c.toNat < 0x80 ∨ 0x80 ≤ b.toNat := by
  have hhigh {n : Nat} (hn : n < 0x80) : 0x80 ≤ (UInt8.ofNat (n + 0x80)).toNat := by
    rw [toNat_ofNat_of_lt (by omega)]
    omega
  rw [encodeChar_eq] at h
  split at h
  · rw [List.mem_singleton] at h
    refine Or.inl ⟨?_, by omega⟩
    rw [h, toNat_ofNat_of_lt (by omega)]
  · refine Or.inr ?_
    split at h
    · simp only [List.mem_cons, List.not_mem_nil, or_false] at h
      rcases h with rfl | rfl
      · rw [toNat_ofNat_of_lt (by omega)]
        omega
      · exact hhigh (by omega)
    · split at h
      · simp only [List.mem_cons, List.not_mem_nil, or_false] at h
        rcases h with rfl | rfl | rfl
        · rw [toNat_ofNat_of_lt (by omega)]
          omega
        · exact hhigh (by omega)
        · exact hhigh (by omega)
      · simp only [List.mem_cons, List.not_mem_nil, or_false] at h
        rcases h with rfl | rfl | rfl | rfl
        · rw [toNat_ofNat_of_lt (by omega)]
          omega
        · exact hhigh (by omega)
        · exact hhigh (by omega)
        · exact hhigh (by omega)

private theorem scanAll_two {b₀ b₁ : UInt8} {c : Char} (h : 0xC2 ≤ b₀.toNat) (h' : b₀.toNat ≤ 0xDF)
    (h₁ : 0x80 ≤ b₁.toNat) (h₁' : b₁.toNat ≤ 0xBF)
    (hcode : (b₀.toNat - 0xC0) * 64 + (b₁.toNat - 0x80) = c.toNat) :
    scanAll [] [b₀, b₁] = ([], [.char c]) := by
  have hfirst : scan [] b₀ = ([b₀], []) := scanFirst_of_lead h (by omega)
  have hcodeOf : codeOf b₀ ([] ++ [b₁]) = c.toNat := by
    rw [List.nil_append, codeOf_singleton]
    omega
  have hsecond : scan [b₀] b₁ = ([], [.char c]) := by
    rw [scan_of_continues (continues_iff.mpr ⟨h₁, h₁', by omega, by omega, by omega, by omega⟩),
      announcedLength_two (by omega) h', if_pos (by rfl), hcodeOf, Char.ofNat_toNat]
  simp [scanAll, hfirst, hsecond]

private theorem scanAll_three {b₀ b₁ b₂ : UInt8} {c : Char} (h : 0xE0 ≤ b₀.toNat)
    (h' : b₀.toNat ≤ 0xEF)
    (h₁ : 0x80 ≤ b₁.toNat) (h₁' : b₁.toNat ≤ 0xBF) (h₂ : 0x80 ≤ b₂.toNat) (h₂' : b₂.toNat ≤ 0xBF)
    (hE0 : b₀.toNat = 0xE0 → 0xA0 ≤ b₁.toNat) (hED : b₀.toNat = 0xED → b₁.toNat ≤ 0x9F)
    (hcode : ((b₀.toNat - 0xE0) * 64 + (b₁.toNat - 0x80)) * 64 + (b₂.toNat - 0x80) = c.toNat) :
    scanAll [] [b₀, b₁, b₂] = ([], [.char c]) := by
  have hfirst : scan [] b₀ = ([b₀], []) := scanFirst_of_lead (by omega) (by omega)
  have hsecond : scan [b₀] b₁ = ([b₀, b₁], []) := by
    rw [scan_of_continues (continues_iff.mpr ⟨h₁, h₁', hE0, hED, by omega, by omega⟩),
      announcedLength_three h h']
    rfl
  have hcodeOf : codeOf b₀ ([b₁] ++ [b₂]) = c.toNat := by
    rw [List.singleton_append, codeOf_pair]
    omega
  have hthird : scan [b₀, b₁] b₂ = ([], [.char c]) := by
    rw [scan_of_continues (continues_later h₂ h₂'), announcedLength_three h h',
      if_pos (by rfl),
      hcodeOf, Char.ofNat_toNat]
  simp [scanAll, hfirst, hsecond, hthird]

private theorem scanAll_four {b₀ b₁ b₂ b₃ : UInt8} {c : Char} (h : 0xF0 ≤ b₀.toNat)
    (h' : b₀.toNat ≤ 0xF4) (h₁ : 0x80 ≤ b₁.toNat) (h₁' : b₁.toNat ≤ 0xBF) (h₂ : 0x80 ≤ b₂.toNat)
    (h₂' : b₂.toNat ≤ 0xBF) (h₃ : 0x80 ≤ b₃.toNat) (h₃' : b₃.toNat ≤ 0xBF)
    (hF0 : b₀.toNat = 0xF0 → 0x90 ≤ b₁.toNat) (hF4 : b₀.toNat = 0xF4 → b₁.toNat ≤ 0x8F)
    (hcode : (((b₀.toNat - 0xF0) * 64 + (b₁.toNat - 0x80)) * 64 + (b₂.toNat - 0x80)) * 64 +
      (b₃.toNat - 0x80) = c.toNat) :
    scanAll [] [b₀, b₁, b₂, b₃] = ([], [.char c]) := by
  have hfirst : scan [] b₀ = ([b₀], []) := scanFirst_of_lead (by omega) (by omega)
  have hsecond : scan [b₀] b₁ = ([b₀, b₁], []) := by
    rw [scan_of_continues (continues_iff.mpr ⟨h₁, h₁', by omega, by omega, hF0, hF4⟩),
      announcedLength_four h (by omega)]
    rfl
  have hthird : scan [b₀, b₁] b₂ = ([b₀, b₁, b₂], []) := by
    rw [scan_of_continues (continues_later h₂ h₂'), announcedLength_four h (by omega)]
    rfl
  have hcodeOf : codeOf b₀ [b₁, b₂, b₃] = c.toNat := by
    rw [codeOf_triple]
    omega
  have hfourth : scan [b₀, b₁, b₂] b₃ = ([], [.char c]) := by
    rw [scan_of_continues (continues_later h₃ h₃'), announcedLength_four h (by omega),
      if_pos (by rfl), List.cons_append, List.singleton_append, hcodeOf, Char.ofNat_toNat]
  simp [scanAll, hfirst, hsecond, hthird, hfourth]

/-- **Reading a character.** Its bytes are read as the character, and nothing is under way then. -/
theorem scanAll_encodeChar (c : Char) : scanAll [] (encodeChar c) = ([], [.char c]) := by
  have hvalid : c.toNat < 0xD800 ∨ 0xDFFF < c.toNat ∧ c.toNat < 0x110000 := c.valid
  have htail := toNat_tail c.toNat
  have htail₁ := toNat_tail (c.toNat / 64)
  have htail₂ := toNat_tail (c.toNat / 4096)
  rw [encodeChar_eq]
  split
  · have hbyte : (UInt8.ofNat c.toNat).toNat = c.toNat := toNat_ofNat_of_lt (by omega)
    have hfirst : scan [] (UInt8.ofNat c.toNat) = ([], [.char c]) := by
      rw [scan, scanFirst_of_ascii (by omega), hbyte, Char.ofNat_toNat]
    simp [scanAll, hfirst]
  · split
    · have hlead : (UInt8.ofNat (c.toNat / 64 % 0x20 + 0xC0)).toNat = c.toNat / 64 % 0x20 + 0xC0 :=
        toNat_ofNat_of_lt (by omega)
      exact scanAll_two (by omega) (by omega) (by omega) (by omega) (by omega)
    · split
      · have hlead : (UInt8.ofNat (c.toNat / 4096 % 0x10 + 0xE0)).toNat =
            c.toNat / 4096 % 0x10 + 0xE0 := toNat_ofNat_of_lt (by omega)
        exact scanAll_three (by omega) (by omega) (by omega) (by omega) (by omega) (by omega)
          (by omega) (by omega) (by omega)
      · have hlead : (UInt8.ofNat (c.toNat / 262144 % 0x08 + 0xF0)).toNat =
            c.toNat / 262144 % 0x08 + 0xF0 := toNat_ofNat_of_lt (by omega)
        exact scanAll_four (by omega) (by omega) (by omega) (by omega) (by omega) (by omega)
          (by omega) (by omega) (by omega) (by omega) (by omega)

/-! ### Texts -/

theorem piecesAfter_append (seen bytes rest : List UInt8) :
    piecesAfter seen (bytes ++ rest) =
      (scanAll seen bytes).2 ++ piecesAfter (scanAll seen bytes).1 rest := by
  induction bytes generalizing seen with
  | nil => rfl
  | cons b bytes ih =>
    rw [List.cons_append, scanAll, List.append_assoc, ← ih]
    cases seen <;> rfl

/-- **Reading a text.** Its bytes are read as its characters, whatever comes behind them. -/
theorem pieces_encode_append (t : Text) (bytes : List UInt8) :
    pieces (encode t ++ bytes) = t.map .char ++ pieces bytes := by
  induction t with
  | nil => rfl
  | cons c t ih =>
    rw [pieces, encode, List.flatMap_cons, List.append_assoc, piecesAfter_append,
      scanAll_encodeChar]
    exact congrArg (Piece.char c :: ·) ih

theorem lossy_encode_append (t : Text) (bytes : List UInt8) :
    lossy (encode t ++ bytes) = t ++ lossy bytes := by
  rw [lossy, pieces_encode_append, List.map_append, List.map_map, lossy]
  exact congrArg (· ++ _) (List.map_id t)

theorem lossy_encode (t : Text) : lossy (encode t) = t := by
  have h := lossy_encode_append t []
  rwa [List.append_nil, show lossy [] = [] from rfl, List.append_nil] at h

/-! ### A character cut short -/

theorem scanAll_append (seen bytes bytes' : List UInt8) :
    scanAll seen (bytes ++ bytes') =
      ((scanAll (scanAll seen bytes).1 bytes').1,
        (scanAll seen bytes).2 ++ (scanAll (scanAll seen bytes).1 bytes').2) := by
  induction bytes generalizing seen with
  | nil => rfl
  | cons b bytes ih =>
    rw [List.cons_append, scanAll, ih, scanAll, List.append_assoc]

/-- A byte after which nothing is found belongs to an encoding under way. -/
theorem scan_of_nothing {seen : List UInt8} {b : UInt8} (h : (scan seen b).2 = []) :
    (scan seen b).1 = seen ++ [b] := by
  cases seen with
  | nil =>
    rw [scan, scanFirst] at h ⊢
    split
    · next hascii =>
      rw [if_pos hascii] at h
      exact absurd h (List.cons_ne_nil _ _)
    · next hascii =>
      rw [if_neg hascii] at h
      split
      · rfl
      · next hlead =>
        rw [if_neg hlead] at h
        exact absurd h (List.cons_ne_nil _ _)
  | cons lead tail =>
    rw [scan] at h ⊢
    split
    · next hcontinues =>
      rw [if_pos hcontinues] at h
      split
      · next hlast =>
        rw [if_pos hlast] at h
        exact absurd h (List.cons_ne_nil _ _)
      · rfl
    · next hcontinues =>
      rw [if_neg hcontinues] at h
      exact absurd h (List.cons_ne_nil _ _)

private theorem scanAll_of_nothing {seen bytes : List UInt8} (h : (scanAll seen bytes).2 = []) :
    (scanAll seen bytes).1 = seen ++ bytes := by
  induction bytes generalizing seen with
  | nil => exact (List.append_nil seen).symm
  | cons b bytes ih =>
    obtain ⟨hb, hrest⟩ := List.append_eq_nil_iff.mp h
    rw [scanAll, ih hrest, scan_of_nothing hb, List.append_assoc]
    rfl

/-- The first bytes of a character are an encoding under way. -/
theorem scanAll_of_prefix {c : Char} {bytes rest : List UInt8} (h : bytes ++ rest = encodeChar c)
    (hrest : rest ≠ []) : scanAll [] bytes = (bytes, []) := by
  have hchar := scanAll_encodeChar c
  rw [← h, scanAll_append] at hchar
  obtain ⟨hend, hfound⟩ := Prod.mk.inj hchar
  rcases List.append_eq_singleton_iff.mp hfound with ⟨hnothing, -⟩ | ⟨-, hnothing⟩
  · exact Prod.ext (scanAll_of_nothing hnothing) hnothing
  · -- The rest would be under way at the end, where nothing is.
    rw [scanAll_of_nothing hnothing] at hend
    exact absurd (List.append_eq_nil_iff.mp hend).2 hrest

/-- **A text with a character behind it that is cut short.** What is there of the character is shown
as U+FFFD. -/
theorem lossy_encode_of_cutShort (t : Text) {c : Char} {bytes rest : List UInt8}
    (h : bytes ++ rest = encodeChar c) (hbytes : bytes ≠ []) (hrest : rest ≠ []) :
    lossy (encode t ++ bytes) = t ++ [replacement] := by
  have hpieces : pieces bytes = [.stray bytes] := by
    have happend := piecesAfter_append [] bytes []
    rw [List.append_nil, scanAll_of_prefix h hrest, List.nil_append] at happend
    obtain ⟨lead, tail, rfl⟩ := List.exists_cons_of_ne_nil hbytes
    exact happend
  rw [lossy_encode_append, lossy, hpieces]
  rfl

/-! ### Lengths and members -/

theorem length_encode (t : Text) : (encode t).length = byteLength t := by
  induction t with
  | nil => rfl
  | cons c t ih =>
    rw [encode, List.flatMap_cons, List.length_append, byteLength_cons, ← ih, encodeChar,
      String.length_utf8EncodeChar, encode]

theorem encodeChar_ne_nil (c : Char) : encodeChar c ≠ [] := by
  have hlength : (encodeChar c).length = c.utf8Size := String.length_utf8EncodeChar c
  exact List.ne_nil_of_length_pos (hlength ▸ c.utf8Size_pos)

/-- The byte of an ASCII character is a byte of no other character. -/
theorem eq_of_mem_encodeChar {c d : Char} (hc : c.toNat < 0x80)
    (h : UInt8.ofNat c.toNat ∈ encodeChar d) : d = c := by
  have hsame : (UInt8.ofNat c.toNat).toNat = c.toNat := toNat_ofNat_of_lt (by omega)
  rcases toNat_of_mem_encodeChar h with ⟨heq, -⟩ | hhigh
  · rw [hsame, Char.toNat_inj] at heq
    exact heq.symm
  · omega

/-- An ASCII character that is not in a text is not in its bytes. -/
theorem notMem_encode {c : Char} {t : Text} (hc : c.toNat < 0x80) (h : c ∉ t) :
    UInt8.ofNat c.toNat ∉ encode t := by
  intro hmem
  obtain ⟨d, hd, hbyte⟩ := List.mem_flatMap.mp hmem
  exact h (eq_of_mem_encodeChar hc hbyte ▸ hd)

end Utf8

end Typeline
