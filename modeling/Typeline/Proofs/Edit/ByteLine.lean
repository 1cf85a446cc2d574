import Typeline.Proofs.Edit.ByteOffsets
import Typeline.Proofs.Edit.Changes
import Typeline.Proofs.Text.Encoding

/-!
# Editing by byte offsets

A line may also be kept as a text with the byte offset of the cursor in it, and be edited by cutting
the text at offsets that are computed on the way. A cut inside of a character, a piece that ends
before it starts, a negative difference and a loop with more than one round for each byte and one to
end it have the outcome `none`, and whatever is asked of a text is asked of the cuts that Unicode
allows.

None of these ever happens: every operation, on every line, has an outcome, which is that of the
same operation on the two lists. So the text stays within the capacity and the cursor between two
characters, and what an operation tells its caller is whether the text or the cursor has changed.

## Main definitions

* `ByteLine` : a line by byte offsets.
* `ByteLine.perform?`, `ByteLine.performAll?` : the operations on it, and some of them one after
  another.
* `Line.byOffsets` : the form of a line by byte offsets.

## Main results

* `ByteLine.perform?_eq` : one operation.
* `ByteLine.editing_by_offsets` : any operations on an empty line.
-/

namespace Typeline

/-- A line, as its text and the byte offset of the cursor. -/
structure ByteLine where
  /-- The text of the line. -/
  text : Text
  /-- The offset of the cursor in it. -/
  cursor : Nat
  /-- The largest number of bytes that may be typed into the line. -/
  capacity : Nat
  deriving DecidableEq, Repr

/-- What an operation answers its caller. -/
inductive Answer where
  /-- Whether anything has changed. -/
  | changed (flag : Bool)
  /-- Nothing. -/
  | nothing
  /-- The text that has been taken out. -/
  | text (t : Text)
  deriving DecidableEq, Repr

/-- The byte at an offset. -/
def byteAt? (t : Text) (o : Nat) : Option UInt8 := (Utf8.encode t)[o]?

namespace ByteLine

/-- An empty line. -/
def empty (capacity : Nat) : ByteLine := ⟨[], 0, capacity⟩

section Operations

variable (cuts : (t : Text) → PlainCuts t) (b : ByteLine)

/-- Go to the right, character by character, to a border of clusters. -/
def settledFrom? (t : Text) (rounds o : Nat) : Option Nat :=
  repeatWhile? (fun o => if o < byteLength t then ((cuts t).border? o).map not else some false)
    (fun o => do
      let (_, after) ← cut? t o
      return o + (after.head?.map Char.utf8Size).getD 1) rounds o

/-- Go to the left, cluster by cluster, as long as the byte before the offset satisfies `p`. -/
def skipped? (t : Text) (p : UInt8 → Bool) (rounds o : Nat) : Option Nat :=
  repeatWhile? (fun o => if 0 < o then (byteAt? t (o - 1)).map p else some false)
    (fun o => do sub? o (← (cuts t).previousLength? o)) rounds o

/-- Go to the left, byte by byte, to a border of clusters. -/
def borderUpTo? (t : Text) (rounds o : Nat) : Option Nat :=
  repeatWhile? (fun o => if 0 < o then ((cuts t).border? o).map not else some false)
    (fun o => sub? o 1) rounds o

/-- Move the cursor to the right to a border of clusters. -/
def settled? : Option ByteLine := do
  let cursor ← settledFrom? cuts b.text (byteLength b.text + 1) b.cursor
  return { b with cursor }

/-- Insert a text at the cursor, and move the cursor behind it. -/
def insert? (chunk : Text) : Option (Bool × ByteLine) := do
  if chunk.isEmpty || b.capacity < byteLength b.text + byteLength chunk then return (false, b)
  let text ← replaced? b.text b.cursor b.cursor chunk
  let line ← settled? cuts { b with text, cursor := b.cursor + byteLength chunk }
  return (true, line)

/-- Move the cursor to the left over one cluster. -/
def left? : Option (Bool × ByteLine) := do
  let step ← (cuts b.text).previousLength? b.cursor
  let cursor ← sub? b.cursor step
  return (0 < step, { b with cursor })

/-- Move the cursor to the right over one cluster. -/
def right? : Option (Bool × ByteLine) := do
  let step ← (cuts b.text).nextLength? b.cursor
  return (0 < step, { b with cursor := b.cursor + step })

/-- Move the cursor to the start. -/
def home : Bool × ByteLine := (b.cursor != 0, { b with cursor := 0 })

/-- Move the cursor to the end. -/
def moveEnd : Bool × ByteLine :=
  (b.cursor != byteLength b.text, { b with cursor := byteLength b.text })

/-- Delete the cluster under the cursor. -/
def delete? : Option (Bool × ByteLine) := do
  let step ← (cuts b.text).nextLength? b.cursor
  if step = 0 then return (false, b)
  let text ← replaced? b.text b.cursor (b.cursor + step) []
  return (true, { b with text })

/-- Delete the cluster before the cursor. -/
def backspace? : Option (Bool × ByteLine) := do
  let step ← (cuts b.text).previousLength? b.cursor
  if step = 0 then return (false, b)
  let start ← sub? b.cursor step
  let text ← replaced? b.text start b.cursor []
  return (true, { b with text, cursor := start })

/-- Delete the spaces before the cursor and then the word before them. -/
def deleteWord? : Option (Bool × ByteLine) := do
  let rounds := byteLength b.text + 1
  let stop ← skipped? cuts b.text (· == 0x20) rounds b.cursor
  let start ← skipped? cuts b.text (· != 0x20) rounds stop
  if start = b.cursor then return (false, b)
  let text ← replaced? b.text start b.cursor []
  return (true, { b with text, cursor := start })

/-- Delete everything behind the cursor. -/
def killToEnd? : Option (Bool × ByteLine) := do
  let (text, _) ← cut? b.text b.cursor
  return (b.cursor != byteLength b.text, { b with text })

/-- Delete everything. -/
def clear : Bool × ByteLine := (!b.text.isEmpty, { b with text := [], cursor := 0 })

/-- Swap the clusters on the two sides of the cursor, and move the cursor behind both. -/
def transpose? : Option (Bool × ByteLine) := do
  let back ← (cuts b.text).previousLength? b.cursor
  let ahead ← (cuts b.text).nextLength? b.cursor
  if back = 0 ∨ ahead = 0 then return (false, b)
  let start ← sub? b.cursor back
  let stop := b.cursor + ahead
  let text ← swapped? b.text start b.cursor stop
  let line ← settled? cuts { b with text, cursor := stop }
  return (true, line)

/-- Replace the whole line, with the cursor at its end. A text that does not fit is cut where a
cluster ends. -/
def setText? (t : Text) : Option ByteLine := do
  let stop ← borderUpTo? cuts t (byteLength t + 1) (min (byteLength t) b.capacity)
  let (text, _) ← cut? t stop
  return { b with text, cursor := byteLength text }

/-- Take the text out of a line. -/
def take : Text × ByteLine := (b.text, { b with text := [], cursor := 0 })

/-- One operation: what it answers, and the line after it. -/
def perform? : Line.Operation → Option (Answer × ByteLine)
  | .insert chunk => (insert? cuts b chunk).map (.map .changed id)
  | .left => (left? cuts b).map (.map .changed id)
  | .right => (right? cuts b).map (.map .changed id)
  | .home => some (b.home.map .changed id)
  | .moveEnd => some (b.moveEnd.map .changed id)
  | .delete => (delete? cuts b).map (.map .changed id)
  | .backspace => (backspace? cuts b).map (.map .changed id)
  | .deleteWord => (deleteWord? cuts b).map (.map .changed id)
  | .killToEnd => (killToEnd? b).map (.map .changed id)
  | .clear => some (b.clear.map .changed id)
  | .transpose => (transpose? cuts b).map (.map .changed id)
  | .setText t => (setText? cuts b t).map (.nothing, ·)
  | .take => some (b.take.map .text id)

/-- Operations, one after another. -/
def performAll? (ops : List Line.Operation) : Option ByteLine :=
  ops.foldlM (fun b op => (perform? cuts b op).map Prod.snd) b

end Operations

/-! ### Lines on two lists -/

end ByteLine

namespace Line

/-- The form of a line by byte offsets. -/
def byOffsets (l : Line) : ByteLine := ⟨l.text, l.cursor, l.capacity⟩

/-- What an operation on two lists comes to by byte offsets: whether it is not refused, and the line
after it. -/
def outcome (l : Line) (result? : Option Line) : Bool × ByteLine :=
  (result?.isSome, (result?.getD l).byOffsets)

/-- What an operation answers about a line. -/
def Operation.answer : Operation → Line → Answer
  | .setText _, _ => .nothing
  | .take, l => .text l.text
  | op, l => .changed (op.result? l).isSome

theorem byOffsets_of_splitAtByte? {l : Line} {o : Nat} {before after : List Char}
    (h : splitAtByte? o l.text = some (before, after)) :
    ({ l with before, after } : Line).byOffsets = { l.byOffsets with cursor := o } := by
  obtain ⟨htext, hcursor⟩ := splitAtByte?_eq_some.mp h
  simp only [byOffsets, text, cursor, htext, hcursor]

end Line

namespace ByteLine

open Line

section Loops

variable (cuts : (t : Text) → PlainCuts t) {t : Text} {o : Nat} {before after : List Char}

/-- The walk that settles the cursor goes through the characters behind it. -/
theorem settledFrom?_eq (h : splitAtByte? o t = some (before, after)) {rounds : Nat}
    (hrounds : byteLength after ≤ rounds) :
    settledFrom? cuts t (rounds + 1) o = some (byteLength (settle before after).1) := by
  induction after generalizing o before rounds with
  | nil =>
    rw [settle, byteLength_before_of_splitAtByte? h]
    refine repeatWhile?_of_false (if_neg ?_)
    rw [(eq_nil_iff_of_splitAtByte? h).2.mp rfl]
    exact Nat.lt_irrefl _
  | cons c after ih =>
    have hsize := c.utf8Size_pos
    rw [byteLength_cons] at hrounds
    have hinside : o < byteLength t := by
      rw [byteLength_of_splitAtByte? h, byteLength_cons]
      omega
    have hborder : (cuts t).border? o = some (isBoundary before (c :: after)) := by
      rw [(cuts t).border?_eq, isBorderAt, holdsAt_of_splitAtByte? h]
    rw [settle]
    by_cases hboundary : isBoundary before (c :: after) = true
    · rw [if_pos hboundary, byteLength_before_of_splitAtByte? h]
      refine repeatWhile?_of_false ?_
      rw [if_pos hinside, hborder, hboundary]
      rfl
    · obtain ⟨htext, hbytes⟩ := splitAtByte?_eq_some.mp h
      have hnext : splitAtByte? (o + c.utf8Size) t = some (c :: before, after) := by
        refine splitAtByte?_eq_some.mpr ⟨?_, ?_⟩
        · rw [List.reverse_cons, List.append_assoc]
          exact htext
        · rw [byteLength_cons, hbytes, Nat.add_comm]
      obtain ⟨rounds, rfl⟩ := Nat.exists_eq_add_one.mpr (show 0 < rounds by omega)
      rw [if_neg hboundary]
      refine Eq.trans (repeatWhile?_of_true ?_ ?_) (ih hnext (by omega))
      · rw [if_pos hinside, hborder, Bool.eq_false_of_not_eq_true hboundary]
        rfl
      · rw [cut?_of_splitAtByte? h]
        rfl

/-- The byte before an offset is a space if and only if the character before it is one. -/
theorem exists_byteAt? {c : Char} (h : splitAtByte? o t = some (c :: before, after)) :
    ∃ byte, byteAt? t (o - 1) = some byte ∧ (byte = 0x20 ↔ c = ' ') := by
  obtain ⟨htext, hbytes⟩ := splitAtByte?_eq_some.mp h
  have hsize : (Utf8.encodeChar c).length = c.utf8Size := String.length_utf8EncodeChar c
  have hpos := c.utf8Size_pos
  have hlast : c.utf8Size - 1 < (Utf8.encodeChar c).length := by omega
  have hencode : Utf8.encode t =
      Utf8.encode before.reverse ++ (Utf8.encodeChar c ++ Utf8.encode after) := by
    rw [← htext, List.reverse_cons, List.append_assoc, Utf8.encode_append]
    rfl
  have hplace : o - 1 = (Utf8.encode before.reverse).length + (c.utf8Size - 1) := by
    rw [Utf8.length_encode, byteLength_reverse, ← hbytes, byteLength_cons]
    omega
  refine ⟨(Utf8.encodeChar c)[c.utf8Size - 1], ?_, fun hspace => ?_, fun hspace => ?_⟩
  · rw [byteAt?, hencode, hplace, List.getElem?_append_right (Nat.le_add_right _ _),
      Nat.add_sub_cancel_left, List.getElem?_append_left hlast, List.getElem?_eq_getElem hlast]
  · exact Utf8.eq_of_mem_encodeChar (c := ' ') (by decide) (List.mem_of_getElem hspace)
  · subst hspace
    rfl

/-- The walk over a word goes from one side of the text to the other. -/
theorem splitAtByte?_backwardWhile (p : Char → Bool) (inside : Bool)
    (h : splitAtByte? o t = some (before, after)) :
    splitAtByte? (byteLength (backwardWhile p inside before after).1) t =
      some (backwardWhile p inside before after) := by
  induction before generalizing o inside after with
  | nil =>
    rw [backwardWhile, byteLength_before_of_splitAtByte? h]
    exact h
  | cons c before ih =>
    rw [backwardWhile]
    split
    · refine ih _ (splitAtByte?_eq_some.mpr ⟨?_, rfl⟩)
      rw [← (splitAtByte?_eq_some.mp h).1, List.reverse_cons, List.append_assoc]
      rfl
    · rw [byteLength_before_of_splitAtByte? h]
      exact h

/-- The walk over a word, by the bytes before the offsets. -/
theorem skipped?_eq {p : UInt8 → Bool} {q : Char → Bool}
    (hpq : ∀ byte c, (byte = 0x20 ↔ c = ' ') → p byte = q c)
    (h : splitAtByte? o t = some (before, after)) {rounds : Nat} (hrounds : o ≤ rounds) :
    skipped? cuts t p (rounds + 1) o =
      some (byteLength (backwardWhile q false before after).1) := by
  -- Each round steps over a cluster, which has a byte at least.
  induction rounds generalizing o before after with
  | zero =>
    obtain rfl := Nat.le_zero.mp hrounds
    obtain rfl := (eq_nil_iff_of_splitAtByte? h).1.mpr rfl
    exact repeatWhile?_of_false rfl
  | succ rounds ih =>
    cases before with
    | nil =>
      obtain rfl := (eq_nil_iff_of_splitAtByte? h).1.mp rfl
      exact repeatWhile?_of_false rfl
    | cons c before =>
      obtain ⟨byte, hbyte, hspace⟩ := exists_byteAt? h
      have hbytes := byteLength_before_of_splitAtByte? h
      have hpos : 0 < o := hbytes ▸ byteLength_pos (List.cons_ne_nil c before)
      have htest : (if 0 < o then (byteAt? t (o - 1)).map p else some false) = some (q c) := by
        rw [if_pos hpos, hbyte, Option.map_some, hpq byte c hspace]
      rw [backwardWhile_cons]
      cases hc : q c with
      | false =>
        rw [if_neg Bool.false_ne_true, hbytes]
        exact repeatWhile?_of_false (htest.trans (congrArg some hc))
      | true =>
        have hshorter := backwardLength_pos (List.cons_ne_nil c before) after
        have hrest := ih (splitAtByte?_backward h) (by omega)
        rw [if_pos rfl]
        refine Eq.trans (repeatWhile?_of_true (htest.trans (congrArg some hc)) ?_) hrest
        rw [(cuts t).previousLength?_eq h, Option.bind_eq_bind, Option.bind_some]
        refine sub?_of_le ?_
        rw [backwardLength, hbytes]
        exact Nat.sub_le _ _

/-- Going to the left byte by byte leads to the greatest border within the bound. -/
theorem borderUpTo?_eq {g : Nat} (h : IsGreatest {n | n ≤ o ∧ isBorderAt t n = true} g)
    {rounds : Nat} (hrounds : o ≤ rounds) : borderUpTo? cuts t (rounds + 1) o = some g := by
  induction o generalizing rounds with
  | zero =>
    obtain rfl := Nat.le_zero.mp h.1.1
    exact repeatWhile?_of_false rfl
  | succ o ih =>
    by_cases hborder : isBorderAt t (o + 1) = true
    · obtain rfl := Nat.le_antisymm h.1.1 (h.2 ⟨Nat.le_refl _, hborder⟩)
      refine repeatWhile?_of_false ?_
      rw [if_pos o.succ_pos, (cuts t).border?_eq, hborder]
      rfl
    · obtain ⟨rounds, rfl⟩ := Nat.exists_eq_add_one.mpr (show 0 < rounds by omega)
      refine Eq.trans (repeatWhile?_of_true ?_ (sub?_of_le o.succ_pos))
        (ih ⟨⟨?_, h.1.2⟩, ?_⟩ (by omega))
      · rw [if_pos o.succ_pos, (cuts t).border?_eq, Bool.eq_false_of_not_eq_true hborder]
        rfl
      · refine Nat.le_of_lt_succ (Nat.lt_of_le_of_ne h.1.1 ?_)
        rintro rfl
        exact hborder h.1.2
      · exact fun n hn => h.2 ⟨Nat.le_succ_of_le hn.1, hn.2⟩

end Loops

variable (cuts : (t : Text) → PlainCuts t) (l : Line)

/-! ### The operations -/

theorem byteLength_text_byOffsets :
    byteLength l.byOffsets.text = l.byOffsets.cursor + byteLength l.after :=
  byteLength_of_splitAtByte? l.splitAtByte?_cursor

theorem cursor_byOffsets : l.byOffsets.cursor = byteLength l.before.reverse :=
  (byteLength_reverse l.before).symm

theorem byOffsets_of_before_eq_nil (h : l.before = []) :
    { l.byOffsets with cursor := 0 } = l.byOffsets := by
  obtain ⟨before, after, capacity⟩ := l
  obtain rfl : before = [] := h
  rfl

theorem settled?_eq : settled? cuts l.byOffsets = some l.settled.byOffsets := by
  have hloop : settledFrom? cuts l.byOffsets.text (byteLength l.byOffsets.text + 1)
      l.byOffsets.cursor = some l.settled.cursor :=
    settledFrom?_eq cuts l.splitAtByte?_cursor
      (byteLength_text_byOffsets l ▸ Nat.le_add_left _ _)
  rw [settled?, hloop]
  refine congrArg some ?_
  rw [byOffsets, byOffsets, text_settled]
  rfl

theorem insert?_eq (chunk : Text) :
    insert? cuts l.byOffsets chunk = some (l.outcome (l.insert chunk)) := by
  have hlength : byteLength l.byOffsets.text = l.length := l.byteLength_text
  rw [insert?, Line.insert, outcome, hlength]
  change (if (chunk.isEmpty || l.capacity < l.length + byteLength chunk) = true then _ else _) = _
  split
  · rfl
  · have htext : l.byOffsets.text = l.before.reverse ++ [] ++ l.after := by
      rw [List.append_nil]
      rfl
    have hreplaced := replaced?_eq (j := l.byOffsets.cursor) htext (cursor_byOffsets l) rfl chunk
    have hinserted : ({ l.byOffsets with
        text := l.before.reverse ++ chunk ++ l.after
        cursor := l.byOffsets.cursor + byteLength chunk } : ByteLine) =
          ({ l with before := chunk.reverse ++ l.before } : Line).byOffsets := by
      simp only [byOffsets, Line.text, Line.cursor, List.reverse_append, List.reverse_reverse,
        byteLength_append, byteLength_reverse, Nat.add_comm]
    rw [hreplaced, Option.bind_eq_bind, Option.bind_some, hinserted, settled?_eq]
    rfl

theorem previousLength?_cursor : (cuts l.byOffsets.text).previousLength? l.byOffsets.cursor =
    some (backwardLength l.before l.after) :=
  (cuts l.text).previousLength?_eq l.splitAtByte?_cursor

theorem nextLength?_cursor : (cuts l.byOffsets.text).nextLength? l.byOffsets.cursor =
    some (forwardLength l.before l.after) :=
  (cuts l.text).nextLength?_eq l.splitAtByte?_cursor

theorem sub?_backwardLength : sub? l.byOffsets.cursor (backwardLength l.before l.after) =
    some (byteLength (backward l.before l.after).1) := by
  have hle : backwardLength l.before l.after ≤ l.byOffsets.cursor := Nat.sub_le _ _
  rw [sub?_of_le hle]
  exact congrArg some (byteLength_before_of_splitAtByte?
    (splitAtByte?_backward l.splitAtByte?_cursor)).symm

theorem left?_eq : left? cuts l.byOffsets = some (l.outcome l.left) := by
  rw [left?, previousLength?_cursor, Option.bind_eq_bind, Option.bind_some, sub?_backwardLength,
    left, outcome]
  by_cases hbefore : l.before = []
  · rw [if_pos (List.isEmpty_iff.mpr hbefore), hbefore]
    exact congrArg (fun b => some (false, b)) (byOffsets_of_before_eq_nil l hbefore)
  · have hsplit := splitAtByte?_backward l.splitAtByte?_cursor
    rw [byteLength_before_of_splitAtByte? hsplit, if_neg (mt List.isEmpty_iff.mp hbefore)]
    simp only [Option.bind_some, Option.pure_def, backwardLength_pos hbefore, decide_true]
    exact congrArg (fun b => some (true, b)) (byOffsets_of_splitAtByte? hsplit).symm

theorem right?_eq : right? cuts l.byOffsets = some (l.outcome l.right) := by
  rw [right?, nextLength?_cursor, right, outcome]
  by_cases hafter : l.after = []
  · rw [if_pos (List.isEmpty_iff.mpr hafter), hafter]
    rfl
  · have hsplit := splitAtByte?_forward l.splitAtByte?_cursor
    rw [if_neg (mt List.isEmpty_iff.mp hafter)]
    simp only [Option.bind_eq_bind, Option.bind_some, Option.pure_def,
      forwardLength_pos l.before hafter, decide_true]
    exact congrArg (fun b => some (true, b)) (byOffsets_of_splitAtByte? hsplit).symm

private theorem home_eq : l.byOffsets.home = l.outcome l.home := by
  rw [home, Line.home, outcome]
  by_cases hbefore : l.before = []
  · have hcursor : l.byOffsets.cursor = 0 := congrArg byteLength hbefore
    rw [if_pos (List.isEmpty_iff.mpr hbefore), byOffsets_of_before_eq_nil l hbefore, hcursor]
    rfl
  · have hmoved : l.byOffsets.cursor != 0 := bne_iff_ne.mpr (Nat.ne_of_gt (byteLength_pos hbefore))
    rw [if_neg (mt List.isEmpty_iff.mp hbefore), hmoved]
    rfl

private theorem moveEnd_eq : l.byOffsets.moveEnd = l.outcome l.moveEnd := by
  have hlength := byteLength_text_byOffsets l
  rw [moveEnd, Line.moveEnd, outcome]
  by_cases hafter : l.after = []
  · rw [hafter, byteLength_nil, Nat.add_zero] at hlength
    rw [if_pos (List.isEmpty_iff.mpr hafter), hlength, bne_self_eq_false]
    rfl
  · have hpos := byteLength_pos hafter
    have hmoved : (l.byOffsets.cursor != byteLength l.byOffsets.text) = true :=
      bne_iff_ne.mpr (by omega)
    rw [if_neg (mt List.isEmpty_iff.mp hafter), hmoved]
    simp only [Option.isSome_some, Option.getD_some, byOffsets, Line.text, Line.cursor,
      List.append_nil, List.reverse_reverse, byteLength_reverse]

theorem delete?_eq : delete? cuts l.byOffsets = some (l.outcome l.delete) := by
  rw [delete?, nextLength?_cursor, delete, outcome]
  by_cases hafter : l.after = []
  · rw [if_pos (List.isEmpty_iff.mpr hafter), hafter]
    rfl
  · have hpos := forwardLength_pos l.before hafter
    have htext : l.byOffsets.text =
        l.before.reverse ++ partAfter l.before l.after ++ (forward l.before l.after).2 := by
      rw [List.append_assoc, ← partAfter_spec]
      rfl
    have hreplaced := replaced?_eq htext (cursor_byOffsets l) rfl []
    rw [← forwardLength_eq, List.append_nil] at hreplaced
    rw [if_neg (mt List.isEmpty_iff.mp hafter), Option.bind_eq_bind, Option.bind_some,
      if_neg (Nat.ne_of_gt hpos), hreplaced]
    rfl

/-- **Removing a piece** that ends at the cursor. -/
theorem replaced?_before {piece rest : List Char} (h : l.before = piece ++ rest) :
    replaced? l.byOffsets.text (byteLength rest) l.byOffsets.cursor [] =
      some (rest.reverse ++ l.after) := by
  have htext : l.byOffsets.text = rest.reverse ++ piece.reverse ++ l.after := by
    rw [byOffsets, Line.text, h, List.reverse_append]
  have hcursor : l.byOffsets.cursor = byteLength rest + byteLength piece.reverse := by
    rw [byOffsets, Line.cursor, h, byteLength_append, byteLength_reverse, Nat.add_comm]
  rw [replaced?_eq htext (byteLength_reverse _).symm hcursor, List.append_nil]

theorem backspace?_eq : backspace? cuts l.byOffsets = some (l.outcome l.backspace) := by
  rw [backspace?, previousLength?_cursor, backspace, outcome]
  by_cases hbefore : l.before = []
  · rw [if_pos (List.isEmpty_iff.mpr hbefore), hbefore]
    rfl
  · have hpos := backwardLength_pos hbefore l.after
    have hremoved := replaced?_before l (partBefore_spec l.before l.after).1
    rw [if_neg (mt List.isEmpty_iff.mp hbefore), Option.bind_eq_bind, Option.bind_some,
      if_neg (Nat.ne_of_gt hpos), sub?_backwardLength, Option.bind_some, hremoved]
    rfl

/-- The two walks over a word end where its start is. -/
theorem skipped?_beforeWord {rounds : Nat} (hrounds : l.byOffsets.cursor ≤ rounds) : ∃ stop,
    skipped? cuts l.byOffsets.text (· == 0x20) (rounds + 1) l.byOffsets.cursor = some stop ∧
      skipped? cuts l.byOffsets.text (· != 0x20) (rounds + 1) stop =
        some (byteLength l.beforeWord) := by
  have hsplit := l.splitAtByte?_cursor
  have hshorter := byteLength_backwardWhile_le (· == ' ') false l.before l.after
  refine ⟨_, skipped?_eq cuts (fun byte c hspace => ?_) hsplit hrounds,
    skipped?_eq cuts (fun byte c hspace => ?_)
      (splitAtByte?_backwardWhile (· == ' ') false hsplit) (Nat.le_trans hshorter hrounds)⟩
  · rw [Bool.eq_iff_iff, beq_iff_eq, beq_iff_eq, hspace]
  · rw [Bool.eq_iff_iff, bne_iff_ne, bne_iff_ne, Ne, hspace]

/-- What is before a word is a start of what is before the cursor. -/
theorem exists_append_beforeWord : ∃ piece, l.before = piece ++ l.beforeWord := by
  have hsplit := l.splitAtByte?_cursor
  obtain ⟨piece, hpiece, -⟩ := exists_piece (splitAtByte?_backwardWhile (· != ' ') false
    (splitAtByte?_backwardWhile (· == ' ') false hsplit)) hsplit l.byteLength_beforeWord_le
  exact ⟨piece.reverse, hpiece⟩

theorem deleteWord?_eq : deleteWord? cuts l.byOffsets = some (l.outcome l.deleteWord) := by
  have hlength := byteLength_text_byOffsets l
  obtain ⟨stop, hspaces, hword⟩ :=
    skipped?_beforeWord cuts l (hlength ▸ Nat.le_add_right l.byOffsets.cursor _)
  rw [deleteWord?, hspaces, Option.bind_eq_bind, Option.bind_some, hword, Option.bind_some,
    deleteWord, outcome]
  by_cases hbefore : l.before = []
  · rw [if_pos (List.isEmpty_iff.mpr hbefore)]
    refine if_pos (Nat.le_antisymm l.byteLength_beforeWord_le ?_)
    rw [hbefore]
    exact Nat.zero_le _
  · have hshorter : byteLength l.beforeWord < l.byOffsets.cursor := byteLength_beforeWord_lt hbefore
    obtain ⟨piece, hpiece⟩ := exists_append_beforeWord l
    have hremoved := replaced?_before l hpiece
    rw [if_neg (mt List.isEmpty_iff.mp hbefore), if_neg (Nat.ne_of_lt hshorter), hremoved]
    rfl

theorem killToEnd?_eq : killToEnd? l.byOffsets = some (l.outcome l.killToEnd) := by
  have hlength := byteLength_text_byOffsets l
  have hcut : cut? l.byOffsets.text l.byOffsets.cursor = some (l.before.reverse, l.after) :=
    cut?_of_splitAtByte? l.splitAtByte?_cursor
  rw [killToEnd?, hcut, killToEnd, outcome, hlength, Option.bind_eq_bind, Option.bind_some]
  by_cases hafter : l.after = []
  · have htext : l.text = l.before.reverse := by rw [Line.text, hafter, List.append_nil]
    rw [if_pos (List.isEmpty_iff.mpr hafter), hafter, byteLength_nil, Nat.add_zero,
      bne_self_eq_false, ← htext]
    rfl
  · have hpos := byteLength_pos hafter
    have hmoved : (l.byOffsets.cursor != l.byOffsets.cursor + byteLength l.after) = true :=
      bne_iff_ne.mpr (by omega)
    have htext : ({ l with after := [] } : Line).text = l.before.reverse := List.append_nil _
    rw [if_neg (mt List.isEmpty_iff.mp hafter), hmoved, ← htext]
    rfl

private theorem clear_eq : l.byOffsets.clear = l.outcome l.clear := by
  rw [clear, Line.clear, outcome]
  by_cases hempty : l.isEmpty = true
  · rw [if_pos hempty]
    rw [isEmpty, Bool.and_eq_true, List.isEmpty_iff, List.isEmpty_iff] at hempty
    obtain ⟨before, after, capacity⟩ := l
    obtain ⟨rfl, rfl⟩ : before = [] ∧ after = [] := hempty
    rfl
  · have hfull : l.byOffsets.text.isEmpty = false := by
      refine Bool.eq_false_of_not_eq_true fun hnil => hempty ?_
      obtain ⟨hbefore, hafter⟩ := List.append_eq_nil_iff.mp (List.isEmpty_iff.mp hnil)
      rw [isEmpty, List.reverse_eq_nil_iff.mp hbefore, hafter]
      rfl
    rw [if_neg hempty, hfull]
    rfl

/-- **Swapping two clusters.** -/
theorem transpose?_eq : transpose? cuts l.byOffsets = some (l.outcome l.transpose) := by
  rw [transpose?, previousLength?_cursor, nextLength?_cursor, outcome]
  simp only [Option.bind_eq_bind, Option.bind_some]
  by_cases hends : l.before = [] ∨ l.after = []
  · have hlengths : backwardLength l.before l.after = 0 ∨ forwardLength l.before l.after = 0 := by
      rcases hends with hnil | hnil
      · exact Or.inl (by rw [hnil]; rfl)
      · exact Or.inr (by rw [hnil]; rfl)
    have hrefused : l.transpose = none := if_pos (by simpa using hends)
    rw [if_pos hlengths, hrefused]
    rfl
  · obtain ⟨hbefore, hafter⟩ := not_or.mp hends
    have hback := backwardLength_pos hbefore l.after
    have hahead := forwardLength_pos l.before hafter
    obtain ⟨hspec, -⟩ := partBefore_spec l.before l.after
    have hspec' := partAfter_spec l.before l.after
    have htext : l.byOffsets.text =
        (backward l.before l.after).1.reverse ++ partBefore l.before l.after ++
          partAfter l.before l.after ++ (forward l.before l.after).2 := by
      rw [List.append_assoc _ (partAfter _ _), ← hspec', byOffsets, Line.text]
      conv => lhs; rw [hspec, List.reverse_append, List.reverse_reverse]
    have hcursor : l.byOffsets.cursor = byteLength (backward l.before l.after).1 +
        byteLength (partBefore l.before l.after) := by
      rw [byOffsets, Line.cursor]
      conv => lhs; rw [hspec, byteLength_append, byteLength_reverse, Nat.add_comm]
    have hswapped := swapped?_eq htext (byteLength_reverse _).symm hcursor rfl
    have hline : ({ l.byOffsets with
        text := (backward l.before l.after).1.reverse ++
          (partAfter l.before l.after ++ partBefore l.before l.after) ++
            (forward l.before l.after).2
        cursor := l.byOffsets.cursor + byteLength (partAfter l.before l.after) } : ByteLine) =
          ({ l with
            before := (partBefore l.before l.after).reverse ++
              (partAfter l.before l.after).reverse ++ (backward l.before l.after).1
            after := (forward l.before l.after).2 } : Line).byOffsets := by
      rw [hcursor]
      simp only [byOffsets, Line.text, Line.cursor, List.reverse_append, List.reverse_reverse,
        byteLength_append, byteLength_reverse]
      congr 1
      omega
    rw [if_neg (by omega), sub?_backwardLength, Option.bind_some, forwardLength_eq, hswapped,
      Option.bind_some, hline, settled?_eq, transpose_eq hbefore hafter]
    rfl

theorem setText?_eq (t : Text) : setText? cuts l.byOffsets t = some (l.setText t).byOffsets := by
  obtain ⟨⟨rest, hsplit⟩, ⟨hle, hborder⟩, hgreatest⟩ := isGreatest_setText l t
  have hstop : borderUpTo? cuts t (byteLength t + 1) (min (byteLength t) l.byOffsets.capacity) =
      some (l.setText t).cursor := by
    have hinside := byteLength_of_splitAtByte? hsplit
    refine borderUpTo?_eq cuts ⟨⟨Nat.le_min.mpr ⟨by omega, hle⟩, hborder⟩, fun o ho => ?_⟩
      (Nat.min_le_left _ _)
    exact hgreatest ⟨Nat.le_trans ho.1 (Nat.min_le_right _ _), ho.2⟩
  have htext : (l.setText t).text = (l.setText t).before.reverse := List.append_nil _
  rw [setText?, hstop, Option.bind_eq_bind, Option.bind_some, cut?_of_splitAtByte? hsplit, ← htext]
  refine congrArg some ?_
  rw [byOffsets, byOffsets, htext, byteLength_reverse]
  rfl

/-- **One operation.** It has an outcome, which is that of the same operation on the two lists. -/
theorem perform?_eq (op : Operation) : perform? cuts l.byOffsets op =
    some (op.answer l, (op.apply l).byOffsets) := by
  cases op with
  | insert chunk =>
    rw [perform?, insert?_eq]
    rfl
  | left =>
    rw [perform?, left?_eq]
    rfl
  | right =>
    rw [perform?, right?_eq]
    rfl
  | home =>
    rw [perform?, home_eq]
    rfl
  | moveEnd =>
    rw [perform?, moveEnd_eq]
    rfl
  | delete =>
    rw [perform?, delete?_eq]
    rfl
  | backspace =>
    rw [perform?, backspace?_eq]
    rfl
  | deleteWord =>
    rw [perform?, deleteWord?_eq]
    rfl
  | killToEnd =>
    rw [perform?, killToEnd?_eq]
    rfl
  | clear =>
    rw [perform?, clear_eq]
    rfl
  | transpose =>
    rw [perform?, transpose?_eq]
    rfl
  | setText t =>
    rw [perform?, setText?_eq]
    rfl
  | take => rfl

/-- Operations, one after another, are those on the two lists. -/
theorem performAll?_eq (ops : List Operation) :
    performAll? cuts l.byOffsets ops = some (l.edited ops).byOffsets := by
  induction ops generalizing l with
  | nil => rfl
  | cons op ops ih =>
    rw [performAll?, List.foldlM_cons, perform?_eq]
    exact ih (op.apply l)

/-! ### What a line keeps -/

/-- An operation that tells whether it has changed anything is true to it. -/
theorem answer_eq_changed {op : Operation} (htells : op.tells = true) :
    op.answer l = .changed (op.result? l).isSome := by
  cases op with
  | setText t => exact absurd htells Bool.false_ne_true
  | take => exact absurd htells Bool.false_ne_true
  | _ => rfl

/-- **Editing by byte offsets.** Whatever operations are performed on an empty line, no cut of a
text fails and every loop ends, and what comes out is the line on the two lists. Its text is within
the capacity, and its cursor between two of its characters. The next operation has an outcome too;
if it tells whether it has changed anything, it has done so exactly if the text or the cursor is
another one, and otherwise the line is the same. -/
theorem editing_by_offsets (cuts : (t : Text) → PlainCuts t) (capacity : Nat)
    (ops : List Operation) :
    ∃ b, performAll? cuts (empty capacity) ops = some b ∧
      b = ((Line.empty capacity).edited ops).byOffsets ∧
      byteLength b.text ≤ capacity ∧ b.cursor ≤ byteLength b.text ∧
      (splitAtByte? b.cursor b.text).isSome = true ∧
      ∀ op, ∃ answer b', perform? cuts b op = some (answer, b') ∧
        b' = (op.apply ((Line.empty capacity).edited ops)).byOffsets ∧
        (op.tells = true → ∃ flag, answer = .changed flag ∧
          (flag = true ↔ b'.text ≠ b.text ∨ b'.cursor ≠ b.cursor) ∧ (flag = false → b' = b)) := by
  set l := (Line.empty capacity).edited ops with hl
  have hfits : byteLength l.text ≤ capacity := by
    have hcapacity : l.capacity = capacity := capacity_edited _ ops
    exact hcapacity ▸ (fits_edited (fits_empty capacity) ops).byteLength_text_le
  refine ⟨l.byOffsets, performAll?_eq cuts (Line.empty capacity) ops, rfl, hfits, ?_, ?_, fun op =>
    ⟨op.answer l, _, perform?_eq cuts l op, rfl, fun htells =>
      ⟨_, answer_eq_changed l htells, Operation.isSome_result?_iff htells l, fun hrefused => ?_⟩⟩⟩
  · exact byteLength_text_byOffsets l ▸ Nat.le_add_right _ _
  · exact Option.isSome_iff_exists.mpr ⟨_, l.splitAtByte?_cursor⟩
  · rw [Operation.apply, Option.isNone_iff_eq_none.mp (Option.isSome_eq_false_iff.mp hrefused)]
    rfl

/-- Characters of one, two and three bytes, two of which are swapped. -/
def swappingOperations : List Operation :=
  [.insert ['a', 'é', '語'], .left, .left, .transpose, .right]

/-- With the cuts that the rules of Unicode allow, in a line of nine bytes: there is something to
delete, and no room for four bytes more. -/
theorem editing_by_offsets_swappingOperations : ∃ b,
    performAll? PlainCuts.ofRules (empty 9) swappingOperations = some b ∧
      b = ⟨['é', 'a', '語'], 6, 9⟩ ∧
      perform? PlainCuts.ofRules b .backspace = some (.changed true, ⟨['é', 'a'], 3, 9⟩) ∧
      perform? PlainCuts.ofRules b (.insert ['b', 'b', 'b', 'b']) = some (.changed false, b) := by
  obtain ⟨b, hall, hline, -, -, -, hnext⟩ :=
    editing_by_offsets PlainCuts.ofRules 9 swappingOperations
  have hedited : b = ⟨['é', 'a', '語'], 6, 9⟩ := hline.trans (by decide +kernel)
  obtain ⟨answer, shorter, hback, hshorter, hanswer⟩ := hnext .backspace
  obtain ⟨flag, rfl, hflag, -⟩ := hanswer rfl
  have hdeleted : shorter = ⟨['é', 'a'], 3, 9⟩ := hshorter.trans (by decide +kernel)
  obtain ⟨answer', same, hinsert, hsame, hanswer'⟩ := hnext (.insert ['b', 'b', 'b', 'b'])
  obtain ⟨flag', rfl, hflag', -⟩ := hanswer' rfl
  have hrefused : same = b := (hsame.trans (by decide +kernel)).trans hedited.symm
  refine ⟨b, hall, hedited, ?_, ?_⟩
  · rw [hback, hflag.mpr (by rw [hdeleted, hedited]; decide), hdeleted]
  · have hsilent : flag' = false := by
      rw [hrefused] at hflag'
      simpa using hflag'
    rw [hinsert, hsilent, hrefused]

end ByteLine

end Typeline
