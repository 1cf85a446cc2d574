import Typeline.Proofs.Text.Encoding
import Typeline.Terminal.ControlSequence
import Typeline.Terminal.StreamParser
import Typeline.Text.CharWidth

/-!
# Texts that a terminal reads to their end

A program writes texts that leave no character and no sequence open. Such texts can be read one
after the other, and what is found in them is found in the whole. They are the printable
characters, the control characters other than escape, and the control sequences.

## Main definitions

* `StreamParser.Reads` : a text is read to its end, and some events are found in it.

## Main results

* `StreamParser.reads_print` : a character that is no control character is printed.
* `StreamParser.reads_single` : a sequence with one parameter is carried out with it.
-/

namespace Typeline

namespace StreamParser

theorem run_cons (state : StreamState) (b : UInt8) (bytes : List UInt8) :
    run state (b :: bytes) =
      ((run (step state b).1 bytes).1, (step state b).2 ++ (run (step state b).1 bytes).2) :=
  rfl

theorem run_append (state : StreamState) (bytes bytes' : List UInt8) :
    run state (bytes ++ bytes') = ((run (run state bytes).1 bytes').1,
      (run state bytes).2 ++ (run (run state bytes).1 bytes').2) := by
  induction bytes generalizing state with
  | nil => rfl
  | cons b bytes ih => rw [List.cons_append, run_cons, run_cons, ih, List.append_assoc]

/-! ### Characters -/

/-- Outside sequences the bytes are read as pieces of text. -/
theorem run_ground {bytes : List UInt8} (h : 0x1B ∉ bytes) (seen : List UInt8) :
    run (.ground seen false) bytes =
      (.ground (Utf8.scanAll seen bytes).1 false,
        (Utf8.scanAll seen bytes).2.map (pieceEvent false)) := by
  induction bytes generalizing seen with
  | nil => rfl
  | cons b bytes ih =>
    rw [List.mem_cons, not_or] at h
    have hstep : step (.ground seen false) b =
        (.ground (Utf8.scan seen b).1 false, (Utf8.scan seen b).2.map (pieceEvent false)) := by
      rw [step, stepGround, if_neg fun hb => h.1 hb.symm]
      simp only [Bool.false_and]
      cases (Utf8.scan seen b).2 <;> rfl
    rw [run_cons, hstep, ih h.2, Utf8.scanAll, List.map_append]

private theorem escape_notMem_encodeChar {c : Char} (h : c ≠ escape) :
    0x1B ∉ Utf8.encodeChar c := by
  intro hmem
  rcases Utf8.toNat_of_mem_encodeChar hmem with ⟨hc, -⟩ | hc
  · exact h (Char.toNat_inj.mp hc.symm)
  · exact absurd hc (by decide)

/-- A text is read to its end, and some events are found in it. -/
def Reads (t : Text) (events : List StreamEvent) : Prop :=
  run start (Utf8.encode t) = (start, events)

namespace Reads

theorem nil : Reads [] [] := rfl

theorem append {t u : Text} {events events' : List StreamEvent} (h : Reads t events)
    (h' : Reads u events') : Reads (t ++ u) (events ++ events') := by
  rw [Reads, Utf8.encode_append, run_append, h, h']

end Reads

theorem reads_singleton {c : Char} (h : c ≠ escape) : Reads [c] [pieceEvent false (.char c)] := by
  rw [Reads, Utf8.encode, List.flatMap_singleton, start, run_ground (escape_notMem_encodeChar h),
    Utf8.scanAll_encodeChar]
  rfl

theorem reads_return : Reads ['\r'] [.execute 0x0D] := reads_singleton (by decide)

theorem reads_lineFeed : Reads ['\n'] [.execute 0x0A] := reads_singleton (by decide)

theorem reads_bell : Reads ['\x07'] [.execute 0x07] := reads_singleton (by decide)

theorem reads_print {c : Char} (h : isControl c = false) : Reads [c] [.print c] := by
  have hexecuted : isExecuted c = false := by
    simp only [isControl, isExecuted, Bool.or_eq_false_iff, Bool.and_eq_false_iff,
      decide_eq_false_iff_not] at h ⊢
    omega
  have hescape : c ≠ escape := by
    rintro rfl
    exact absurd h (by decide)
  have hreads := reads_singleton hescape
  rwa [pieceEvent, hexecuted] at hreads

theorem isControl_of_charWidth_pos {c : Char} (h : 0 < charWidth c) : isControl c = false := by
  rw [← Bool.not_eq_true]
  intro hc
  rw [charWidth, if_pos (by simp [hc])] at h
  exact Nat.lt_irrefl 0 h

/-! ### Control sequences -/

/-- A value that has stopped growing does not change what more digits make of it. -/
theorem min_ofDigitChars_min (digits : List Char) (value : Nat) :
    min 65535 (Nat.ofDigitChars 10 digits (min 65535 value)) =
      min 65535 (Nat.ofDigitChars 10 digits value) := by
  by_cases h : value ≤ 65535
  · rw [Nat.min_eq_right h]
  · have hgrows : ∀ v, v ≤ Nat.ofDigitChars 10 digits v := by
      intro v
      rw [Nat.ofDigitChars_eq_ofDigitChars_zero]
      exact Nat.le_add_right_of_le (Nat.le_mul_of_pos_left v (Nat.pow_pos (by decide)))
    have hstopped : min 65535 value = 65535 := Nat.min_eq_left (by omega)
    rw [hstopped, Nat.min_eq_left (hgrows 65535),
      Nat.min_eq_left (Nat.le_trans (by omega) (hgrows value))]

theorem encodeChar_of_ascii {c : Char} (h : c.toNat < 0x80) :
    Utf8.encodeChar c = [UInt8.ofNat c.toNat] := by
  rw [Utf8.encodeChar_eq, if_pos (by omega)]

theorem stepParameters_digit (state : StreamState) (p : StreamParameters) {b : UInt8}
    (h : 0x30 ≤ b.toNat) (h' : b.toNat ≤ 0x39) :
    stepParameters state p b = (.controlParameters (p.digit b), []) := by
  have hinner : isInnerControl b = false := by
    simp only [isInnerControl, UInt8.le_iff_toNat_le, ← UInt8.toNat_inj, UInt8.reduceToNat,
      decide_eq_false_iff_not]
    omega
  have hintermediate : isIntermediate b = false := by
    simp only [isIntermediate, UInt8.le_iff_toNat_le, UInt8.reduceToNat, decide_eq_false_iff_not]
    omega
  have hdigit : 0x30 ≤ b ∧ b ≤ 0x39 := by
    simp only [UInt8.le_iff_toNat_le]
    exact ⟨h, h'⟩
  rw [stepParameters, hinner, hintermediate, if_neg Bool.false_ne_true, if_neg Bool.false_ne_true,
    if_pos hdigit]

/-- Digits make up a value. -/
theorem run_digits {p : StreamParameters} (hfull : p.isFull = false) (hvalue : p.value ≤ 65535)
    {digits : List Char} (hdigits : ∀ d ∈ digits, d.isDigit = true) :
    run (.controlParameters p) (Utf8.encode digits) = (.controlParameters
      { p with value := min 65535 (Nat.ofDigitChars 10 digits p.value) }, []) := by
  induction digits generalizing p with
  | nil =>
    rw [Nat.ofDigitChars_nil, Nat.min_eq_right hvalue]
    rfl
  | cons d digits ih =>
    have hrange : 0x30 ≤ d.toNat ∧ d.toNat ≤ 0x39 := by
      simpa [Char.isDigit, UInt32.le_iff_toNat_le] using hdigits d List.mem_cons_self
    have hbyte : (UInt8.ofNat d.toNat).toNat = d.toNat := Utf8.toNat_ofNat_of_lt (by omega)
    have hstep : step (.controlParameters p) (UInt8.ofNat d.toNat) = (.controlParameters
        { p with value := min 65535 (10 * p.value + (d.toNat - '0'.toNat)) }, []) := by
      rw [step, stepParameters_digit _ _ (by omega) (by omega), StreamParameters.digit, hfull,
        if_neg Bool.false_ne_true, hbyte, Nat.mul_comm]
      rfl
    rw [Utf8.encode, List.flatMap_cons, encodeChar_of_ascii (by omega), List.singleton_append,
      run_cons, hstep]
    have hrest := ih (p := { p with value := min 65535 (10 * p.value + (d.toNat - '0'.toNat)) })
      hfull (Nat.min_le_left _ _) fun e he => hdigits e (List.mem_cons_of_mem d he)
    rw [Utf8.encode] at hrest
    rw [hrest, min_ofDigitChars_min, Nat.ofDigitChars_cons]
    rfl

theorem run_decimal {p : StreamParameters} (hfull : p.isFull = false) (hvalue : p.value = 0)
    (n : Nat) : run (.controlParameters p) (Utf8.encode (decimal n)) =
      (.controlParameters { p with value := min 65535 n }, []) := by
  rw [decimal, run_digits hfull (by omega) fun d hd =>
    Nat.isDigit_of_mem_toDigits (by decide) (by decide) hd, hvalue, Nat.ofDigitChars_ten_toDigits]

theorem run_entry_decimal (n : Nat) : run .controlEntry (Utf8.encode (decimal n)) =
    (.controlParameters { StreamParameters.empty with value := min 65535 n }, []) := by
  rw [← run_decimal rfl rfl n]
  obtain ⟨d, digits, hdigits⟩ := List.exists_cons_of_ne_nil (Nat.toDigits_ne_nil (n := n) (b := 10))
  have hd : d.isDigit = true :=
    Nat.isDigit_of_mem_toDigits (by decide) (by decide) (hdigits ▸ List.mem_cons_self)
  have hrange : 0x30 ≤ d.toNat ∧ d.toNat ≤ 0x39 := by
    simpa [Char.isDigit, UInt32.le_iff_toNat_le] using hd
  have hbyte : (UInt8.ofNat d.toNat).toNat = d.toNat := Utf8.toNat_ofNat_of_lt (by omega)
  rw [decimal, hdigits, Utf8.encode, List.flatMap_cons, encodeChar_of_ascii (by omega),
    List.singleton_append, run_cons, run_cons, step, step,
    stepParameters_digit _ _ (by omega) (by omega), stepParameters_digit _ _ (by omega) (by omega)]

theorem run_introducer (bytes : List UInt8) :
    run start (Utf8.encode ControlSequence.introducer ++ bytes) = run .controlEntry bytes :=
  rfl

/-- A letter that ends a control sequence. -/
def Ends (c : Char) : Prop := ∀ p : StreamParameters,
  run (.controlParameters p) (Utf8.encode [c]) = (start, [.control p.all (UInt8.ofNat c.toNat)])

/-- A sequence with one parameter is carried out with it. -/
theorem reads_single (n : Nat) {c : Char} (h : Ends c) :
    Reads (ControlSequence.introducer ++ (decimal n ++ [c]))
      [.control [min 65535 n] (UInt8.ofNat c.toNat)] := by
  rw [Reads, Utf8.encode_append, run_introducer, Utf8.encode_append, run_append, run_entry_decimal,
    h]
  rfl

theorem reads_cursorUp (n : Nat) :
    Reads (ControlSequence.cursorUp n).text [.control [min 65535 n] 'A'.toUInt8] :=
  reads_single n fun _ => rfl

theorem reads_cursorDown (n : Nat) :
    Reads (ControlSequence.cursorDown n).text [.control [min 65535 n] 'B'.toUInt8] :=
  reads_single n fun _ => rfl

theorem reads_cursorForward (n : Nat) :
    Reads (ControlSequence.cursorForward n).text [.control [min 65535 n] 'C'.toUInt8] :=
  reads_single n fun _ => rfl

theorem reads_cursorBackward (n : Nat) :
    Reads (ControlSequence.cursorBackward n).text [.control [min 65535 n] 'D'.toUInt8] :=
  reads_single n fun _ => rfl

theorem reads_eraseDisplay (n : Nat) :
    Reads (ControlSequence.eraseDisplay n).text [.control [min 65535 n] 'J'.toUInt8] :=
  reads_single n fun _ => rfl

theorem reads_eraseLine (n : Nat) :
    Reads (ControlSequence.eraseLine n).text [.control [min 65535 n] 'K'.toUInt8] :=
  reads_single n fun _ => rfl

theorem reads_statusReport (n : Nat) :
    Reads (ControlSequence.statusReport n).text [.control [min 65535 n] 'n'.toUInt8] :=
  reads_single n fun _ => rfl

theorem reads_styleSingle (n : Nat) :
    Reads (ControlSequence.styleSingle n).text [.control [min 65535 n] 'm'.toUInt8] :=
  reads_single n fun _ => rfl

theorem reads_cursorHome : Reads ControlSequence.cursorHome.text [.control [0] 'H'.toUInt8] :=
  rfl

private theorem run_separator (p : StreamParameters) :
    run (.controlParameters p) (Utf8.encode [';']) = (.controlParameters p.endParameter, []) :=
  rfl

theorem reads_style (a b c : Nat) : Reads (ControlSequence.style a b c).text
    [.control [min 65535 a, min 65535 b, min 65535 c] 'm'.toUInt8] := by
  have htext : (ControlSequence.style a b c).text = ControlSequence.introducer ++
      (decimal a ++ ([';'] ++ (decimal b ++ ([';'] ++ (decimal c ++ ['m']))))) := by
    simp [ControlSequence.text, ControlSequence.body]
  rw [Reads, htext, Utf8.encode_append, run_introducer, Utf8.encode_append, run_append,
    run_entry_decimal, Utf8.encode_append, run_append, run_separator, Utf8.encode_append,
    run_append, run_decimal rfl rfl, Utf8.encode_append, run_append, run_separator,
    Utf8.encode_append, run_append, run_decimal rfl rfl]
  rfl

end StreamParser

end Typeline
