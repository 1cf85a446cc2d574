import Mathlib.Algebra.Order.BigOperators.Group.List
import Typeline.Edit.View
import Typeline.Proofs.Terminal.Stream
import Typeline.Proofs.Text.Columns
import Typeline.Proofs.Text.Pieces

/-!
# Columns of a prompt

A prompt takes at most as many columns as it has bytes, also if sequences are taken out of it to
find its columns. What is left of it may then be longer than the prompt: a device control string
that ends inside of a character leaves bytes that belong to no character, and each of these is shown
by a character of three bytes. But that one takes a single column.

So characters are counted by the least number of bytes that they may have been read from. This count
never gets ahead of the bytes that were read, if those of a character under way are set aside.

## Main definitions

* `readSize`, `readLength` : the least number of bytes that a text may have been read from.
* `StreamState.seen` : the bytes of a character under way.

## Main results

* `textWidth_le_readLength` : columns of a text.
* `StreamParser.readLength_run` : what is read in any bytes.
* `promptWidth_le_byteLength` : columns of a prompt.
-/

namespace Typeline

/-! ### The bytes that a text may have been read from -/

/-- The least number of bytes that a character may have been read from. Any byte that belongs to no
character is read as the one that stands for such bytes. -/
def readSize (c : Char) : Nat := if c = replacement then 1 else c.utf8Size

/-- The least number of bytes that a text may have been read from. -/
def readLength (t : Text) : Nat := (t.map readSize).sum

private theorem readSize_pos (c : Char) : 0 < readSize c := by
  rw [readSize]
  split
  · exact Nat.one_pos
  · exact c.utf8Size_pos

private theorem readSize_le (c : Char) : readSize c ≤ c.utf8Size := by
  rw [readSize]
  split
  · exact c.utf8Size_pos
  · exact Nat.le_refl _

theorem readLength_cons (c : Char) (t : Text) :
    readLength (c :: t) = readSize c + readLength t := by
  rw [readLength, List.map_cons, List.sum_cons]
  rfl

theorem readLength_append (t u : Text) : readLength (t ++ u) = readLength t + readLength u := by
  rw [readLength, List.map_append, List.sum_append]
  rfl

private theorem length_le_readLength (t : Text) : t.length ≤ readLength t := by
  induction t with
  | nil => exact Nat.le_refl 0
  | cons c t ih =>
    have hpos := readSize_pos c
    rw [readLength_cons, List.length_cons]
    omega

/-- A single character that stands for other bytes takes one column, and any other character has as
many bytes as columns. -/
theorem clusterWidth_le_readLength (cluster : Text) :
    clusterWidth cluster ≤ readLength cluster := by
  have hlength := length_le_readLength cluster
  have htwo := clusterWidth_le_two cluster
  match cluster with
  | [] => exact Nat.le_refl 0
  | [c] =>
    by_cases hreplaced : c = replacement
    · subst hreplaced
      decide +kernel
    · have hbytes := clusterWidth_le_byteLength [c]
      rw [byteLength_cons] at hbytes
      rwa [readLength_cons, readSize, if_neg hreplaced]
  | c :: d :: rest =>
    rw [List.length_cons, List.length_cons] at hlength
    omega

/-- **Columns of a text.** They are no more than the bytes that it may have been read from. -/
theorem textWidth_le_readLength (t : Text) : textWidth t ≤ readLength t := by
  have hparts (parts : List Text) : columnsOf clusterWidth parts ≤ readLength parts.flatten := by
    induction parts with
    | nil => exact Nat.le_refl 0
    | cons part parts ih =>
      rw [columnsOf_cons, List.flatten_cons, readLength_append]
      exact Nat.add_le_add (clusterWidth_le_readLength part) ih
  rw [textWidth_eq]
  have hall := hparts (clusters t)
  rwa [flatten_clusters] at hall

/-! ### What is read in a stream -/

/-- The bytes of a character that have been read, as long as it is not complete. -/
def StreamState.seen : StreamState → List UInt8
  | .ground seen _ => seen
  | _ => []

/-- The text that some events leave. -/
def plainEvents (events : List StreamEvent) : Text := events.flatMap StreamEvent.plain

theorem plainEvents_cons (event : StreamEvent) (events : List StreamEvent) :
    plainEvents (event :: events) = event.plain ++ plainEvents events :=
  List.flatMap_cons

theorem plainEvents_append (events events' : List StreamEvent) :
    plainEvents (events ++ events') = plainEvents events ++ plainEvents events' :=
  List.flatMap_append

namespace StreamParser

/-- A piece that is found has been read from a byte at least. -/
theorem bytes_ne_nil_of_mem_scan {seen : List UInt8} {b : UInt8} {piece : Utf8.Piece}
    (h : piece ∈ (Utf8.scan seen b).2) : piece.bytes ≠ [] := by
  have hfirst : ∀ piece ∈ (Utf8.scanFirst b).2, piece.bytes ≠ [] := by
    intro piece hpiece
    rw [Utf8.scanFirst] at hpiece
    split at hpiece
    · rw [List.mem_singleton.mp hpiece]
      exact Utf8.encodeChar_ne_nil _
    · split at hpiece
      · exact absurd hpiece List.not_mem_nil
      · rw [List.mem_singleton.mp hpiece]
        exact List.cons_ne_nil _ _
  cases seen with
  | nil => exact hfirst piece h
  | cons lead tail =>
    rw [Utf8.scan] at h
    split at h
    · split at h
      · rw [List.mem_singleton.mp h]
        exact Utf8.encodeChar_ne_nil _
      · exact absurd h List.not_mem_nil
    · rcases List.mem_cons.mp h with rfl | h
      · exact List.cons_ne_nil _ _
      · exact hfirst piece h

/-- A piece is shown by a character that may have been read from its bytes. -/
theorem readLength_pieceEvent {piece : Utf8.Piece} (h : piece.bytes ≠ []) (cut : Bool) :
    readLength (pieceEvent cut piece).plain ≤ piece.bytes.length := by
  have hpos := List.length_pos_iff.mpr h
  have hexecute (b : UInt8) : readLength (StreamEvent.execute b).plain ≤ 1 := by
    rw [StreamEvent.plain]
    split <;> decide
  have hreplaced : readLength (StreamEvent.print replacement).plain ≤ 1 := by decide
  cases piece with
  | char c =>
    rw [pieceEvent]
    split
    · exact Nat.le_trans (hexecute _) hpos
    · have hlength : (Utf8.encodeChar c).length = c.utf8Size := String.length_utf8EncodeChar c
      change readSize c + 0 ≤ (Utf8.encodeChar c).length
      rw [hlength]
      exact readSize_le c
  | stray bytes =>
    cases bytes with
    | nil => exact absurd rfl h
    | cons b rest =>
      cases rest with
      | nil =>
        rw [pieceEvent]
        split
        · exact hexecute b
        · exact hreplaced
      | cons c rest => exact Nat.le_trans hreplaced hpos

/-- Pieces are shown by a text that may have been read from their bytes. -/
theorem readLength_pieceEvents {found : List Utf8.Piece} (h : ∀ piece ∈ found, piece.bytes ≠ []) :
    readLength (plainEvents (found.map (pieceEvent false))) ≤
      (found.flatMap Utf8.Piece.bytes).length := by
  induction found with
  | nil => exact Nat.le_refl 0
  | cons piece found ih =>
    rw [List.map_cons, plainEvents_cons, readLength_append, List.flatMap_cons, List.length_append]
    exact Nat.add_le_add (readLength_pieceEvent (h piece List.mem_cons_self) false)
      (ih fun other hother => h other (List.mem_cons_of_mem _ hother))

/-- A byte outside of sequences. -/
theorem readLength_stepGround {seen : List UInt8} (h : Utf8.UnderWay seen) (cut : Bool)
    (b : UInt8) :
    readLength (plainEvents (stepGround seen cut b).2) + (stepGround seen cut b).1.seen.length ≤
        seen.length + 1 ∧ Utf8.UnderWay (stepGround seen cut b).1.seen := by
  rw [stepGround]
  split
  · refine ⟨?_, trivial⟩
    cases seen with
    | nil => exact Nat.zero_le _
    | cons lead tail => exact Nat.le_add_left 1 _
  · obtain ⟨hbytes, hunderWay⟩ := Utf8.bytes_scan h b
    have hfound : ∀ piece ∈ (Utf8.scan seen b).2, piece.bytes ≠ [] :=
      fun piece hpiece => bytes_ne_nil_of_mem_scan hpiece
    generalize Utf8.scan seen b = scanned at hbytes hunderWay hfound
    obtain ⟨seen', found⟩ := scanned
    have hlength := congrArg List.length hbytes
    rw [List.length_append, List.length_append] at hlength
    refine ⟨Nat.le_trans (Nat.add_le_add_right ?_ _) (Nat.le_of_eq hlength), hunderWay⟩
    -- Only the first piece may have been cut.
    cases found with
    | nil => exact Nat.zero_le _
    | cons piece rest =>
      dsimp only
      rw [plainEvents_cons, readLength_append, List.flatMap_cons, List.length_append]
      exact Nat.add_le_add (readLength_pieceEvent (hfound piece List.mem_cons_self) cut)
        (readLength_pieceEvents fun other hother => hfound other (List.mem_cons_of_mem _ hother))

/-- A step by which nothing is under way, and at most a control byte is found. -/
def Settles (found : StreamState × List StreamEvent) : Prop :=
  readLength (plainEvents found.2) ≤ 1 ∧ found.1.seen = []

theorem settles_nil {state : StreamState} (h : state.seen = []) : Settles (state, []) :=
  ⟨Nat.zero_le 1, h⟩

theorem settles_execute {state : StreamState} (h : state.seen = []) (b : UInt8) :
    Settles (state, [.execute b]) := by
  refine ⟨?_, h⟩
  change readLength ((if b = 0x0A then ['\n'] else []) ++ []) ≤ 1
  split <;> decide

theorem Settles.ite {p : Prop} [Decidable p] {found found' : StreamState × List StreamEvent}
    (h : Settles found) (h' : Settles found') : Settles (if p then found else found') := by
  split
  · exact h
  · exact h'

theorem settles_stepAnywhere {state : StreamState} (h : state.seen = []) (b : UInt8) :
    Settles (stepAnywhere state b) :=
  .ite (settles_execute rfl b) (.ite (settles_nil rfl) (settles_nil h))

private theorem settles_stepParameters {state : StreamState} (h : state.seen = [])
    (p : StreamParameters) (b : UInt8) : Settles (stepParameters state p b) := by
  have hprivate : (if state = .controlEntry then StreamState.controlParameters p
      else .controlIgnored).seen = [] := by
    split <;> rfl
  exact .ite (settles_execute h b) (.ite (settles_nil rfl) (.ite (settles_nil rfl)
    (.ite (settles_nil rfl) (.ite (settles_nil rfl) (.ite (settles_nil hprivate)
      (.ite ⟨Nat.zero_le 1, rfl⟩ (settles_stepAnywhere h b)))))))

private theorem settles_stepEscape (b : UInt8) : Settles (stepEscape b) :=
  .ite (settles_execute rfl b) (.ite (settles_execute rfl b) (.ite (settles_nil rfl)
    (.ite (settles_nil rfl) (.ite (settles_nil rfl) (.ite (settles_nil rfl) (.ite (settles_nil rfl)
      (.ite (settles_nil rfl) (settles_nil rfl))))))))

/-- A byte inside of a sequence. -/
theorem settles_step {state : StreamState} (h : ∀ seen cut, state ≠ .ground seen cut) (b : UInt8) :
    Settles (step state b) := by
  have hanywhere {state : StreamState} (hseen : state.seen = []) : Settles (stepAnywhere state b) :=
    settles_stepAnywhere hseen b
  cases state with
  | ground seen cut => exact absurd rfl (h seen cut)
  | escape => exact settles_stepEscape b
  | escapeIntermediate =>
    exact .ite (settles_execute rfl b) (.ite (settles_nil rfl) (hanywhere rfl))
  | controlEntry => exact settles_stepParameters rfl .empty b
  | controlParameters p => exact settles_stepParameters rfl p b
  | controlIntermediate p =>
    exact .ite (settles_execute rfl b) (.ite (settles_nil rfl)
      (.ite ⟨Nat.zero_le 1, rfl⟩ (hanywhere rfl)))
  | controlIgnored => exact .ite (settles_execute rfl b) (.ite (settles_nil rfl) (hanywhere rfl))
  | deviceEntry =>
    exact .ite (settles_nil rfl) (.ite (settles_nil rfl) (.ite (settles_nil rfl) (hanywhere rfl)))
  | deviceParameters =>
    exact .ite (settles_nil rfl) (.ite (settles_nil rfl) (.ite (settles_nil rfl) (hanywhere rfl)))
  | deviceIntermediate => exact .ite (settles_nil rfl) (.ite (settles_nil rfl) (hanywhere rfl))
  | deviceIgnored => exact hanywhere rfl
  | deviceData => exact .ite (settles_nil rfl) (hanywhere rfl)
  | systemCommand => exact .ite (settles_nil rfl) (hanywhere rfl)
  | otherString => exact hanywhere rfl

/-- **A byte.** What it completes may have been read from it and the bytes under way, less those
that are under way then. -/
theorem readLength_step {state : StreamState} (h : Utf8.UnderWay state.seen) (b : UInt8) :
    readLength (plainEvents (step state b).2) + (step state b).1.seen.length ≤
        state.seen.length + 1 ∧ Utf8.UnderWay (step state b).1.seen := by
  by_cases hground : ∃ seen cut, state = .ground seen cut
  · obtain ⟨seen, cut, rfl⟩ := hground
    exact readLength_stepGround h cut b
  · obtain ⟨hle, hseen⟩ := settles_step (fun seen cut heq => hground ⟨seen, cut, heq⟩) b
    rw [hseen]
    exact ⟨Nat.le_trans hle (Nat.le_add_left 1 _), trivial⟩

/-- **Any bytes.** The text that is found may have been read from them. -/
theorem readLength_run {state : StreamState} (h : Utf8.UnderWay state.seen) (bytes : List UInt8) :
    readLength (plainEvents (run state bytes).2) ≤ state.seen.length + bytes.length := by
  induction bytes generalizing state with
  | nil => exact Nat.zero_le _
  | cons b bytes ih =>
    obtain ⟨hstep, hunderWay⟩ := readLength_step h b
    have hrest := ih hunderWay
    rw [run_cons, plainEvents_append, readLength_append, List.length_cons]
    omega

end StreamParser

/-! ### Prompts -/

private theorem textWidth_plainText_le (t : Text) : textWidth (plainText t) ≤ byteLength t := by
  have hread := @StreamParser.readLength_run StreamParser.start trivial (Utf8.encode t)
  rw [Utf8.length_encode] at hread
  change readLength (plainText t) ≤ 0 + byteLength t at hread
  rw [Nat.zero_add] at hread
  exact Nat.le_trans (textWidth_le_readLength _) hread

/-- **Columns of a prompt.** They are no more than its bytes. -/
theorem promptWidth_le_byteLength (prompt : Text) : promptWidth prompt ≤ byteLength prompt := by
  rw [promptWidth]
  split
  · exact textWidth_plainText_le prompt
  · exact textWidth_le_byteLength prompt

end Typeline
