import Typeline.Proofs.Text.StrictReading

/-!
# The bytes of pieces

Reading piece by piece drops nothing: put together again, the pieces of some bytes are the bytes.
Between two pieces nothing is under way, and inside of one there are a first byte and some of the
later bytes that it announces. When the last of them comes, they have the form of an encoding, since
the second byte was held to its range.

So bytes without a stray piece are the encoding of a text, and the text that is read is that one.

## Main definitions

* `Utf8.Piece.bytes` : the bytes that a piece was read from.
* `Utf8.Begins` : a first byte and some of the later ones.

## Main results

* `Utf8.flatMap_bytes_pieces` : the pieces of some bytes, put together again.
* `Utf8.decode?_eq_some_iff` : the bytes that are read as a text.
-/

namespace Typeline

namespace Utf8

/-- The bytes that a piece was read from. -/
def Piece.bytes : Piece → List UInt8
  | .char c => encodeChar c
  | .stray bytes => bytes

/-! ### Encodings under way -/

/-- A first byte and some of the later ones, the second of which is in its range. -/
structure Begins (lead : UInt8) (tail : List UInt8) : Prop where
  isLead : isLead lead = true
  later : ∀ b ∈ tail, isContinuation b = true
  second : ∀ b ∈ tail.head?, continues [lead] b = true

theorem Begins.append {lead b : UInt8} {tail : List UInt8} (h : Begins lead tail)
    (hb : continues (lead :: tail) b = true) : Begins lead (tail ++ [b]) := by
  cases tail with
  | nil =>
    obtain ⟨hlow, hhigh, -⟩ := continues_iff.mp hb
    refine ⟨h.isLead, ?_, fun c hc => ?_⟩
    · exact List.forall_mem_singleton.mpr (isContinuation_iff.mpr ⟨hlow, hhigh⟩)
    · exact Option.some.inj hc ▸ hb
  | cons c tail =>
    refine ⟨h.isLead, fun d hd => ?_, h.second⟩
    rcases List.mem_append.mp hd with hd | hd
    · exact h.later d hd
    · rw [List.mem_singleton.mp hd]
      exact hb

/-- With all the later bytes that are announced, they have the form of an encoding. -/
theorem Begins.isEncoding {lead : UInt8} {tail : List UInt8} (h : Begins lead tail)
    (hlength : tail.length + 1 = announcedLength lead) : IsEncoding lead tail := by
  obtain ⟨hlow, hhigh⟩ := isLead_iff.mp h.isLead
  have hlengths := announcedLength_cases lead
  suffices hcode : leastCode (announcedLength lead) ≤ codeOf lead tail ∧
      (codeOf lead tail < 0xD800 ∨ 0xDFFF < codeOf lead tail ∧ codeOf lead tail < 0x110000) from
    ⟨by omega, hlength, h.later, hcode.1, hcode.2⟩
  rw [← hlength]
  rcases lengths_of_later (n := tail.length) (by omega) (by omega) with htail | htail | htail
  · obtain ⟨b₁, rfl⟩ := List.length_eq_one_iff.mp htail
    have hsecond := continues_iff.mp (h.second b₁ rfl)
    rw [codeOf_singleton, show leastCode ([b₁].length + 1) = 0x80 from rfl]
    omega
  · obtain ⟨b₁, b₂, rfl⟩ := List.length_eq_two.mp htail
    have hsecond := continues_iff.mp (h.second b₁ rfl)
    have hthird := isContinuation_iff.mp (h.later b₂ (by simp))
    rw [List.length_cons, List.length_singleton] at hlength
    rw [codeOf_pair, show leastCode ([b₁, b₂].length + 1) = 0x800 from rfl]
    omega
  · obtain ⟨b₁, b₂, b₃, rfl⟩ := List.length_eq_three.mp htail
    have hsecond := continues_iff.mp (h.second b₁ rfl)
    have hthird := isContinuation_iff.mp (h.later b₂ (by simp))
    have hfourth := isContinuation_iff.mp (h.later b₃ (by simp))
    rw [List.length_cons, List.length_cons, List.length_singleton] at hlength
    rw [codeOf_triple, show leastCode ([b₁, b₂, b₃].length + 1) = 0x10000 from rfl]
    omega

/-! ### One byte -/

/-- The bytes seen of an encoding under way: none, or a first byte and fewer of the later ones than
it announces. -/
def UnderWay : List UInt8 → Prop
  | [] => True
  | lead :: tail => Begins lead tail ∧ tail.length + 1 < announcedLength lead

/-- Reading a byte between two characters drops nothing. -/
theorem bytes_scanFirst (b : UInt8) :
    (scanFirst b).2.flatMap Piece.bytes ++ (scanFirst b).1 = [b] ∧ UnderWay (scanFirst b).1 := by
  rw [scanFirst]
  split
  · next hascii =>
    have hlow : b.toNat < 0x80 := UInt8.lt_iff_toNat_lt.mp hascii
    have hcode : (Char.ofNat b.toNat).toNat = b.toNat :=
      toNat_ofNat_of_isValidChar (Or.inl (by omega))
    refine ⟨?_, trivial⟩
    change encodeChar (Char.ofNat b.toNat) ++ [] ++ [] = [b]
    rw [encodeChar_eq, hcode, if_pos (by omega), UInt8.ofNat_toNat]
    rfl
  · split
    · next hlead =>
      have hlow := isLead_iff.mp hlead
      have hlengths := announcedLength_cases b
      refine ⟨rfl, ⟨hlead, fun c hc => absurd hc List.not_mem_nil,
        fun c hc => absurd hc (Option.not_mem_none c)⟩, ?_⟩
      change 0 + 1 < announcedLength b
      omega
    · exact ⟨rfl, trivial⟩

/-- **Reading a byte.** Nothing is dropped, and what is under way then is so rightly. -/
theorem bytes_scan {seen : List UInt8} (h : UnderWay seen) (b : UInt8) :
    (scan seen b).2.flatMap Piece.bytes ++ (scan seen b).1 = seen ++ [b] ∧
      UnderWay (scan seen b).1 := by
  cases seen with
  | nil => exact bytes_scanFirst b
  | cons lead tail =>
    obtain ⟨hbegins, hshort⟩ := h
    by_cases hb : continues (lead :: tail) b = true
    · have hlonger := hbegins.append hb
      have hlength : (tail ++ [b]).length = tail.length + 1 := List.length_append
      rw [scan_of_continues hb]
      split
      · next hlast =>
        have hencoding := hlonger.isEncoding (by omega)
        refine ⟨?_, trivial⟩
        change encodeChar _ ++ [] ++ [] = _
        rw [hencoding.encodeChar_eq, List.append_nil, List.append_nil]
        rfl
      · next hmore =>
        refine ⟨rfl, ?_⟩
        change Begins lead (tail ++ [b]) ∧ (tail ++ [b]).length + 1 < announcedLength lead
        exact ⟨hlonger, by omega⟩
    · obtain ⟨hbytes, hrest⟩ := bytes_scanFirst b
      rw [scan, if_neg hb]
      refine ⟨?_, hrest⟩
      change (lead :: tail) ++ (scanFirst b).2.flatMap Piece.bytes ++ (scanFirst b).1 = _
      rw [List.append_assoc, hbytes]

/-! ### All bytes -/

private theorem bytes_piecesAfter {seen : List UInt8} (h : UnderWay seen) (bytes : List UInt8) :
    (piecesAfter seen bytes).flatMap Piece.bytes = seen ++ bytes := by
  induction bytes generalizing seen with
  | nil =>
    cases seen with
    | nil => rfl
    | cons lead tail =>
      rw [List.append_nil]
      exact List.flatMap_singleton Piece.bytes (.stray (lead :: tail))
  | cons b bytes ih =>
    obtain ⟨hbytes, hrest⟩ := bytes_scan h b
    have hstep : piecesAfter seen (b :: bytes) =
        (scan seen b).2 ++ piecesAfter (scan seen b).1 bytes := by cases seen <;> rfl
    rw [hstep, List.flatMap_append, ih hrest, ← List.append_assoc, hbytes, List.append_assoc]
    rfl

/-- **Pieces.** Put together again, the pieces of some bytes are the bytes. -/
theorem flatMap_bytes_pieces (bytes : List UInt8) :
    (pieces bytes).flatMap Piece.bytes = bytes :=
  @bytes_piecesAfter [] trivial bytes

private theorem mapM_char?_eq_some {found : List Piece} {t : Text} :
    found.mapM Piece.char? = some t ↔ found = t.map .char := by
  induction found generalizing t with
  | nil => cases t <;> simp
  | cons piece found ih =>
    cases piece with
    | stray bytes => cases t <;> simp [Piece.char?]
    | char c =>
      cases t with
      | nil => simp [Piece.char?, Option.bind_eq_some_iff]
      | cons d t =>
        simp only [List.mapM_cons, Piece.char?, Option.bind_eq_bind, Option.bind_some,
          Option.bind_eq_some_iff, Option.pure_def, Option.some_inj, List.map_cons, List.cons.injEq,
          Piece.char.injEq, ih]
        constructor
        · rintro ⟨u, rfl, rfl, rfl⟩
          exact ⟨rfl, rfl⟩
        · rintro ⟨rfl, rfl⟩
          exact ⟨t, rfl, rfl, rfl⟩

/-- **Bytes that are a text.** Bytes are read as a text if and only if they are its encoding. -/
theorem decode?_eq_some_iff {bytes : List UInt8} {t : Text} :
    decode? bytes = some t ↔ bytes = encode t := by
  rw [decode?, mapM_char?_eq_some]
  constructor
  · intro h
    rw [← flatMap_bytes_pieces bytes, h, List.flatMap_map]
    rfl
  · rintro rfl
    have hpieces := pieces_encode_append t []
    rwa [List.append_nil, show pieces [] = [] from rfl, List.append_nil] at hpieces

end Utf8

end Typeline
