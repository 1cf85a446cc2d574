import Typeline.Proofs.Text.Pieces
import Typeline.Terminal.Columns

/-!
# Reports of the place of the cursor

A report is `ESC [ x ; y R` with two numerals: decimal digits, with zeros in front of them or not,
after a plus sign or none. What a terminal sends is read as a row and a column if and only if it is
the bytes of a report whose two numbers fit into 64 bits. Everything else is refused: bytes that are
no text, a missing or a further part, a numeral without digits or with anything else in it, and a
number that is too large.

## Main definitions

* `IsNumeral` : the numerals of a number.
* `cursorReport` : the text of a report with given numerals.

## Main results

* `count?_eq_some_iff` : the texts that are read as a number.
* `parseCursorReport_reads` : the bytes that are read as a report.
-/

namespace Typeline

/-! ### Numerals -/

/-- A numeral of a number: decimal digits, after a plus sign or none. -/
def IsNumeral (t : Text) (n : Nat) : Prop :=
  ∃ digits, (t = digits ∨ t = '+' :: digits) ∧ digits ≠ [] ∧
    (∀ d ∈ digits, d.isDigit = true) ∧ Nat.ofDigitChars 10 digits 0 = n

theorem isNumeral_decimal (n : Nat) : IsNumeral (decimal n) n :=
  ⟨decimal n, Or.inl rfl, Nat.toDigits_ne_nil,
    fun _ hd => Nat.isDigit_of_mem_toDigits (by decide) (by decide) hd,
    Nat.ofDigitChars_ten_toDigits⟩

theorem IsNumeral.semicolon_notMem {t : Text} {n : Nat} (h : IsNumeral t n) : ';' ∉ t := by
  obtain ⟨digits, ht, -, hdigits, -⟩ := h
  have hnot : ';' ∉ digits := fun hmem => absurd (hdigits _ hmem) (by decide)
  rcases ht with rfl | rfl
  · exact hnot
  · exact List.not_mem_cons_of_ne_of_not_mem (by decide) hnot

private theorem digitsValue_eq (digits : List Char) :
    digitsValue digits = Nat.ofDigitChars 10 digits 0 := by
  rw [digitsValue, Nat.ofDigitChars]
  congr 1
  funext value c
  rw [Nat.mul_comm]

private theorem unsigned?_eq_some_iff {t : Text} {n : Nat} : unsigned? t = some n ↔
    (t ≠ [] ∧ (∀ d ∈ t, d.isDigit = true) ∧ Nat.ofDigitChars 10 t 0 = n) ∧ n ≤ maxCount := by
  rw [unsigned?, Option.ite_none_right_eq_some, Option.some_inj, List.all_eq_true, digitsValue_eq]
  constructor
  · rintro ⟨⟨hne, hdigits, hmax⟩, rfl⟩
    exact ⟨⟨hne, hdigits, rfl⟩, hmax⟩
  · rintro ⟨⟨hne, hdigits, rfl⟩, hmax⟩
    exact ⟨⟨hne, hdigits, hmax⟩, rfl⟩

/-- **Reading a number.** The texts that are read as a number are its numerals, if it fits. -/
theorem count?_eq_some_iff {t : Text} {n : Nat} :
    count? t = some n ↔ IsNumeral t n ∧ n ≤ maxCount := by
  have hplus {digits : Text} (h : ∀ d ∈ '+' :: digits, d.isDigit = true) : False :=
    absurd (h '+' List.mem_cons_self) (by decide)
  unfold count?
  split
  · next digits =>
    rw [unsigned?_eq_some_iff]
    refine and_congr_left fun _ => ⟨fun h => ⟨digits, Or.inr rfl, h⟩, ?_⟩
    rintro ⟨digits', rfl | hsame, h⟩
    · exact (hplus h.2.1).elim
    · exact (List.cons.inj hsame).2 ▸ h
  · next hsign =>
    rw [unsigned?_eq_some_iff]
    refine and_congr_left fun _ => ⟨fun h => ⟨t, Or.inl rfl, h⟩, ?_⟩
    rintro ⟨digits, rfl | rfl, h⟩
    · exact h
    · exact (hsign digits rfl).elim

/-! ### Reports -/

/-- A report of the place of the cursor, with the numerals of the row and of the column. -/
def cursorReport (row column : Text) : Text :=
  ['\x1B', '['] ++ row ++ [';'] ++ column ++ ['R']

/-- A text is cut at its first semicolon. -/
theorem splitAtSemicolon_eq_some_iff {t before after : Text} :
    splitAtSemicolon t = some (before, after) ↔ t = before ++ ';' :: after ∧ ';' ∉ before := by
  induction t generalizing before after with
  | nil => simp [splitAtSemicolon]
  | cons c t ih =>
    rw [splitAtSemicolon]
    by_cases hc : c = ';'
    · subst hc
      cases before with
      | nil => simp
      | cons d before =>
        rw [if_pos rfl, List.mem_cons, List.cons_append, List.cons.injEq]
        simp only [Option.some_inj, Prod.mk.injEq, reduceCtorEq, false_and, false_iff]
        exact fun ⟨⟨hd, _⟩, hnot⟩ => hnot (Or.inl hd)
    · rw [if_neg hc]
      cases before with
      | nil => simp [hc]
      | cons d before =>
        simp only [Option.map_eq_some_iff, Prod.exists, ih, Prod.mk.injEq, List.cons.injEq,
          List.cons_append, List.mem_cons, not_or]
        constructor
        · rintro ⟨u, v, ⟨rfl, hnot⟩, ⟨rfl, rfl⟩, rfl⟩
          exact ⟨⟨rfl, rfl⟩, Ne.symm hc, hnot⟩
        · rintro ⟨⟨rfl, rfl⟩, -, hnot⟩
          exact ⟨before, after, ⟨rfl, hnot⟩, ⟨rfl, rfl⟩, rfl⟩

/-- **Reading a report.** What is read are the bytes of a report with two numbers that fit. -/
theorem parseCursorReport_eq_some_iff {bytes : List UInt8} {r c : Nat} :
    parseCursorReport bytes = some (r, c) ↔ ∃ row column,
      bytes = Utf8.encode (cursorReport row column) ∧ IsNumeral row r ∧ IsNumeral column c ∧
        r ≤ maxCount ∧ c ≤ maxCount := by
  rw [parseCursorReport]
  simp only [Option.bind_eq_bind, Option.bind_eq_some_iff, Utf8.decode?_eq_some_iff]
  constructor
  · rintro ⟨t, rfl, h⟩
    split at h
    · next rest =>
      obtain ⟨hlast, h⟩ := Option.ite_none_right_eq_some.mp h
      simp only [Option.bind_eq_some_iff, Prod.exists, splitAtSemicolon_eq_some_iff,
        count?_eq_some_iff, Option.pure_def, Option.some_inj, Prod.mk.injEq] at h
      obtain ⟨row, column, ⟨hbody, -⟩, _, ⟨hrow, hr⟩, _, ⟨hcolumn, hc⟩, rfl, rfl⟩ := h
      refine ⟨row, column, congrArg Utf8.encode ?_, hrow, hcolumn, hr, hc⟩
      rw [← List.dropLast_append_getLast? _ hlast, hbody]
      simp [cursorReport]
    · exact nomatch h
  · rintro ⟨row, column, rfl, hrow, hcolumn, hr, hc⟩
    have hreport : cursorReport row column =
        '\x1B' :: '[' :: (row ++ ';' :: column ++ ['R']) := by simp [cursorReport]
    refine ⟨_, rfl, ?_⟩
    split
    · next rest hrest =>
      obtain ⟨-, hrest⟩ := List.cons.inj (hreport.symm.trans hrest)
      obtain ⟨-, rfl⟩ := List.cons.inj hrest
      rw [List.getLast?_concat, if_pos rfl, List.dropLast_concat,
        splitAtSemicolon_eq_some_iff.mpr ⟨rfl, hrow.semicolon_notMem⟩, Option.bind_some,
        count?_eq_some_iff.mpr ⟨hrow, hr⟩, Option.bind_some,
        count?_eq_some_iff.mpr ⟨hcolumn, hc⟩]
      rfl
    · next hother => exact absurd hreport (hother _)

/-- **Reports of the place of the cursor.** Bytes are read as a row and a column exactly if they are
those of a report with a numeral of each and both fit into 64 bits; so a report that is printed is
read back, and bytes that are not those of a report, or whose numbers are too large, are refused. -/
theorem parseCursorReport_reads (bytes : List UInt8) :
    (∀ r c, parseCursorReport bytes = some (r, c) ↔ ∃ row column,
      bytes = Utf8.encode (cursorReport row column) ∧ IsNumeral row r ∧ IsNumeral column c ∧
        r ≤ maxCount ∧ c ≤ maxCount) ∧
    (∀ r c, r ≤ maxCount → c ≤ maxCount →
      parseCursorReport (Utf8.encode (cursorReport (decimal r) (decimal c))) = some (r, c)) ∧
    (parseCursorReport bytes = none ↔ ∀ row column r c,
      bytes = Utf8.encode (cursorReport row column) → IsNumeral row r → IsNumeral column c →
        maxCount < r ∨ maxCount < c) := by
  refine ⟨fun r c => parseCursorReport_eq_some_iff, fun r c hr hc => ?_, ?_⟩
  · exact parseCursorReport_eq_some_iff.mpr
      ⟨_, _, rfl, isNumeral_decimal r, isNumeral_decimal c, hr, hc⟩
  · rw [Option.eq_none_iff_forall_ne_some, Prod.forall]
    constructor
    · intro h row column r c hbytes hrow hcolumn
      by_contra hfits
      rw [not_or, Nat.not_lt, Nat.not_lt] at hfits
      exact h r c (parseCursorReport_eq_some_iff.mpr
        ⟨row, column, hbytes, hrow, hcolumn, hfits.1, hfits.2⟩)
    · intro h r c hsome
      obtain ⟨row, column, hbytes, hrow, hcolumn, hr, hc⟩ := parseCursorReport_eq_some_iff.mp hsome
      rcases h row column r c hbytes hrow hcolumn with hlarge | hlarge <;> omega

/-- The largest column that there is, in a report as it is printed and in one whose row has a sign
and leading zeros. -/
theorem parseCursorReport_reads_largestColumn :
    7 ≤ maxCount ∧ maxCount ≤ maxCount ∧
      parseCursorReport (Utf8.encode (cursorReport (decimal 7) (decimal maxCount))) =
        some (7, maxCount) ∧
      parseCursorReport (Utf8.encode (cursorReport ['+', '0', '0', '7'] (decimal maxCount))) =
        some (7, maxCount) := by
  have hrow : IsNumeral ['+', '0', '0', '7'] 7 :=
    ⟨['0', '0', '7'], Or.inr rfl, List.cons_ne_nil _ _, List.all_eq_true.mp rfl, rfl⟩
  exact ⟨by decide, Nat.le_refl _,
    (parseCursorReport_reads []).2.1 7 maxCount (by decide) (Nat.le_refl _),
    ((parseCursorReport_reads _).1 7 maxCount).mpr
      ⟨_, _, rfl, hrow, isNumeral_decimal maxCount, by decide, Nat.le_refl _⟩⟩

end Typeline
