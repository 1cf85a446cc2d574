import Mathlib.Data.List.DropRight
import Mathlib.Data.Nat.Find
import Typeline.Proofs.Edit.CursorBoundary
import Typeline.Proofs.Text.Alphabet

/-!
# Editing on two lists

Over an alphabet of characters that never join, a line is two lists of characters, the ones before
and the ones after the cursor, and every operation is a step on the two lists that knows nothing of
clusters. Such an editor is described here by itself, with both lists in the order of the text, and
lines that are edited over an alphabet are shown to go the same way.

## Main definitions

* `Line.longestPrefix` : the longest start of a text that takes so many bytes at most.
* `TwoLists.step`, `TwoLists.steps` : an editor on two lists.
* `Line.Operation.argument` : the text that an operation brings with it.

## Main results

* `Line.result?_line` : an operation over an alphabet is refused or a step on the two lists.
* `Line.edited_eq_twoLists` : any operations over an alphabet.
-/

namespace Typeline

namespace Line

/-! ### The longest start that fits -/

/-- The longest start of a text that takes at most so many bytes. -/
def longestPrefix (room : Nat) (t : Text) : Text :=
  t.take (Nat.findGreatest (fun k => byteLength (t.take k) ≤ room) t.length)

theorem longestPrefix_cons (room : Nat) (c : Char) (t : Text) :
    longestPrefix room (c :: t) =
      if c.utf8Size ≤ room then c :: longestPrefix (room - c.utf8Size) t else [] := by
  have hgreatest : ∀ n, Nat.findGreatest (fun k => byteLength ((c :: t).take k) ≤ room) (n + 1) =
      if c.utf8Size ≤ room then
        Nat.findGreatest (fun k => byteLength (t.take k) ≤ room - c.utf8Size) n + 1 else 0 := by
    intro n
    induction n with
    | zero => simp [Nat.findGreatest_succ]
    | succ n ih =>
      rw [Nat.findGreatest_succ, ih, Nat.findGreatest_succ, List.take_succ_cons, byteLength_cons]
      by_cases hc : c.utf8Size ≤ room
      · have hbytes : c.utf8Size + byteLength (t.take (n + 1)) ≤ room ↔
            byteLength (t.take (n + 1)) ≤ room - c.utf8Size := by omega
        simp only [hc, hbytes, if_true]
        split <;> rfl
      · rw [if_neg (by omega), if_neg hc, if_neg hc]
  rw [longestPrefix, List.length_cons, hgreatest]
  by_cases hc : c.utf8Size ≤ room
  · rw [if_pos hc, if_pos hc]
    rfl
  · rw [if_neg hc, if_neg hc]
    rfl

theorem longestPrefix_subset (room : Nat) (t : Text) : longestPrefix room t ⊆ t :=
  List.take_subset _ _

/-! ### Operations over an alphabet -/

section Alphabet

variable {A : Alphabet} {c d : Char} {before after : List Char}

/-- A position that is spelled on both sides is settled already. -/
theorem settle_of_spells (hbefore : A.Spells before) (hafter : A.Spells after) :
    settle before after = (before, after) := by
  cases after with
  | nil => rfl
  | cons c after => rw [settle, if_pos (Alphabet.isBoundary_of_spells hbefore hafter)]

/-- The walk to the left passes over the characters that satisfy its test. -/
theorem backwardWhile_of_spells (p : Char → Bool) (hbefore : A.Spells before)
    (hafter : A.Spells after) :
    backwardWhile p false before after =
      (before.dropWhile p, (before.takeWhile p).reverse ++ after) := by
  induction before generalizing after with
  | nil => rfl
  | cons c before ih =>
    obtain ⟨hc, hbefore⟩ := Alphabet.spells_cons.mp hbefore
    have hafter' : A.Spells (c :: after) := Alphabet.spells_cons.mpr ⟨hc, hafter⟩
    rw [backwardWhile, Alphabet.isBoundary_of_spells hbefore hafter', Bool.false_or]
    by_cases hp : p c = true
    · rw [if_pos hp, Bool.not_true, ih hbefore hafter', List.dropWhile_cons_of_pos hp,
        List.takeWhile_cons_of_pos hp, List.reverse_cons, List.append_assoc]
      rfl
    · rw [if_neg hp, List.dropWhile_cons_of_neg hp, List.takeWhile_cons_of_neg hp]
      rfl

private theorem beforeWord_of_spells {l : Line} (hbefore : A.Spells l.before)
    (hafter : A.Spells l.after) :
    l.beforeWord = (l.before.dropWhile (· == ' ')).dropWhile (· != ' ') := by
  have hrest : A.Spells (l.before.dropWhile (· == ' ')) :=
    hbefore.of_subset (List.dropWhile_suffix _).subset
  have hpassed : A.Spells ((l.before.takeWhile (· == ' ')).reverse ++ l.after) :=
    Alphabet.spells_append.mpr ⟨Alphabet.spells_reverse.mpr
      (hbefore.of_subset (List.takeWhile_prefix _).subset), hafter⟩
  simp only [beforeWord, backwardWhile_of_spells _ hbefore hafter,
    backwardWhile_of_spells _ hrest hpassed]

/-- The walk over a text keeps all of it that it passes over. -/
theorem longestFit_of_spells (room : Nat) {t : Text} (ht : A.Spells t) (hbefore : A.Spells before) :
    longestFit room before before t = (longestPrefix room t).reverse ++ before := by
  induction t generalizing room before with
  | nil => rfl
  | cons c t ih =>
    obtain ⟨hc, ht⟩ := Alphabet.spells_cons.mp ht
    have hbefore' : A.Spells (c :: before) := Alphabet.spells_cons.mpr ⟨hc, hbefore⟩
    rw [longestFit, longestPrefix_cons]
    by_cases hroom : c.utf8Size ≤ room
    · rw [if_pos hroom, if_pos hroom, if_pos (Alphabet.isBoundary_of_spells hbefore' ht),
        ih _ ht hbefore', List.reverse_cons, List.append_assoc]
      rfl
    · rw [if_neg hroom, if_neg hroom]
      rfl

variable {capacity : Nat}

private theorem insert_of_spells {chunk : Text} (hchunk : A.Spells chunk)
    (hbefore : A.Spells before) (hafter : A.Spells after) : insert ⟨before, after, capacity⟩ chunk =
      if chunk.isEmpty || capacity < length ⟨before, after, capacity⟩ + byteLength chunk then none
      else some ⟨chunk.reverse ++ before, after, capacity⟩ := by
  have hboth : A.Spells (chunk.reverse ++ before) :=
    Alphabet.spells_append.mpr ⟨Alphabet.spells_reverse.mpr hchunk, hbefore⟩
  simp only [insert, settled, settle_of_spells hboth hafter]

theorem setText_of_spells {t : Text} (ht : A.Spells t) (l : Line) :
    l.setText t = ⟨(longestPrefix l.capacity t).reverse, [], l.capacity⟩ := by
  rw [setText, longestFit_of_spells l.capacity ht Alphabet.spells_nil, List.append_nil]

section Cons

variable (hc : c ∈ A) (hbefore : A.Spells before)

include hc hbefore

theorem deleteWord_cons (hafter : A.Spells after) :
    deleteWord ⟨c :: before, after, capacity⟩ =
      some ⟨((c :: before).dropWhile (· == ' ')).dropWhile (· != ' '), after, capacity⟩ := by
  rw [deleteWord, beforeWord_of_spells (Alphabet.spells_cons.mpr ⟨hc, hbefore⟩) hafter]
  rfl

theorem left_cons (hafter : A.Spells after) : left ⟨c :: before, after, capacity⟩ =
    some ⟨before, c :: after, capacity⟩ := by
  rw [left, Alphabet.backward_cons hc hbefore hafter]
  rfl

theorem backspace_cons (hafter : A.Spells after) : backspace ⟨c :: before, after, capacity⟩ =
    some ⟨before, after, capacity⟩ := by
  rw [backspace, Alphabet.backward_cons hc hbefore hafter]
  rfl

theorem right_cons (hafter : A.Spells after) : right ⟨before, c :: after, capacity⟩ =
    some ⟨c :: before, after, capacity⟩ := by
  rw [right, Alphabet.forward_cons hc hbefore hafter]
  rfl

theorem delete_cons (hafter : A.Spells after) : delete ⟨before, c :: after, capacity⟩ =
    some ⟨before, after, capacity⟩ := by
  rw [delete, Alphabet.forward_cons hc hbefore hafter]
  rfl

theorem transpose_cons (hd : d ∈ A) (hafter : A.Spells after) :
    transpose ⟨c :: before, d :: after, capacity⟩ =
      some ⟨c :: d :: before, after, capacity⟩ := by
  have hbefore' : A.Spells (c :: before) := Alphabet.spells_cons.mpr ⟨hc, hbefore⟩
  have hafter' : A.Spells (d :: after) := Alphabet.spells_cons.mpr ⟨hd, hafter⟩
  have hswapped : A.Spells (c :: d :: before) := by
    rw [Alphabet.spells_cons, Alphabet.spells_cons]
    exact ⟨hc, hd, hbefore⟩
  rw [transpose, Alphabet.backward_cons hc hbefore hafter',
    Alphabet.forward_cons hd hbefore' hafter]
  simp [settled, settle_of_spells hswapped hafter]

end Cons

end Alphabet

/-- The text that an operation brings with it. -/
def Operation.argument : Operation → Text
  | .insert chunk => chunk
  | .setText t => t
  | _ => []

end Line

/-! ### The editor on two lists -/

/-- A line as two lists of characters, in the order of the text. -/
structure TwoLists where
  /-- The characters before the cursor. -/
  left : List Char
  /-- The characters after the cursor. -/
  right : List Char
  deriving DecidableEq, Repr

namespace TwoLists

/-- No characters at all. -/
def empty : TwoLists := ⟨[], []⟩

/-- The text of both lists. -/
def text (p : TwoLists) : Text := p.left ++ p.right

/-- What an operation does to the two lists, of which no more than `capacity` bytes can be typed. -/
def step (capacity : Nat) (p : TwoLists) : Line.Operation → TwoLists
  | .insert chunk =>
    if byteLength p.text + byteLength chunk ≤ capacity then ⟨p.left ++ chunk, p.right⟩ else p
  | .left => ⟨p.left.dropLast, p.left.getLast?.toList ++ p.right⟩
  | .right => ⟨p.left ++ p.right.head?.toList, p.right.tail⟩
  | .home => ⟨[], p.text⟩
  | .moveEnd => ⟨p.text, []⟩
  | .delete => ⟨p.left, p.right.tail⟩
  | .backspace => ⟨p.left.dropLast, p.right⟩
  | .deleteWord => ⟨(p.left.rdropWhile (· == ' ')).rdropWhile (· != ' '), p.right⟩
  | .killToEnd => ⟨p.left, []⟩
  | .clear | .take => empty
  | .transpose =>
    match p.left.getLast?, p.right.head? with
    | some c, some d => ⟨p.left.dropLast ++ [d, c], p.right.tail⟩
    | _, _ => p
  | .setText t => ⟨Line.longestPrefix capacity t, []⟩

/-- The two lists after some operations, starting from none. -/
def steps (capacity : Nat) (ops : List Line.Operation) : TwoLists :=
  ops.foldl (step capacity) empty

theorem steps_concat (capacity : Nat) (ops : List Line.Operation) (op : Line.Operation) :
    steps capacity (ops ++ [op]) = step capacity (steps capacity ops) op := by
  rw [steps, List.foldl_append]
  rfl

/-- The line of two lists. -/
def line (p : TwoLists) (capacity : Nat) : Line := ⟨p.left.reverse, p.right, capacity⟩

private theorem text_line (p : TwoLists) (capacity : Nat) : (p.line capacity).text = p.text := by
  rw [Line.text, line, List.reverse_reverse]
  rfl

private theorem cursor_line (p : TwoLists) (capacity : Nat) :
    (p.line capacity).cursor = byteLength p.left :=
  byteLength_reverse p.left

/-- Whether an operation finds nothing that it could do, or finds no room for it. -/
def refuses (capacity : Nat) (p : TwoLists) : Line.Operation → Bool
  | .insert chunk => chunk.isEmpty || capacity < byteLength p.text + byteLength chunk
  | .left | .home | .backspace | .deleteWord => p.left.isEmpty
  | .right | .moveEnd | .delete | .killToEnd => p.right.isEmpty
  | .clear => p.left.isEmpty && p.right.isEmpty
  | .transpose => p.left.isEmpty || p.right.isEmpty
  | .setText _ | .take => false

/-- An operation that is refused is no step. -/
theorem step_of_refuses {capacity : Nat} {p : TwoLists} {op : Line.Operation}
    (h : p.refuses capacity op = true) : p.step capacity op = p := by
  obtain ⟨left, right⟩ := p
  cases op with
  | insert chunk =>
    simp only [refuses, Bool.or_eq_true, List.isEmpty_iff, decide_eq_true_eq] at h
    rw [step]
    split
    · rcases h with rfl | h
      · rw [List.append_nil]
      · omega
    · rfl
  | left | home | backspace | deleteWord =>
    obtain rfl := List.isEmpty_iff.mp h
    rfl
  | right | moveEnd | delete | killToEnd =>
    obtain rfl := List.isEmpty_iff.mp h
    simp [step, text]
  | clear =>
    simp only [refuses, Bool.and_eq_true, List.isEmpty_iff] at h
    rw [h.1, h.2]
    rfl
  | transpose =>
    simp only [refuses, Bool.or_eq_true, List.isEmpty_iff] at h
    rcases h with rfl | rfl
    · rfl
    · rw [step]
      cases left.getLast? <;> rfl
  | setText | take => exact absurd h Bool.false_ne_true

end TwoLists

namespace Line

variable {A : Alphabet} {capacity : Nat} {p : TwoLists}

private theorem insert_line (hp : A.Spells p.text) {chunk : Text} (hchunk : A.Spells chunk) :
    (p.line capacity).insert chunk = if p.refuses capacity (.insert chunk) then none
      else some ((p.step capacity (.insert chunk)).line capacity) := by
  obtain ⟨left, right⟩ := p
  obtain ⟨hleft, hright⟩ : A.Spells left ∧ A.Spells right := Alphabet.spells_append.mp hp
  have hlength : length ⟨left.reverse, right, capacity⟩ = byteLength (left ++ right) := by
    rw [length, byteLength_reverse, byteLength_append]
  rw [TwoLists.line, insert_of_spells hchunk (Alphabet.spells_reverse.mpr hleft) hright, hlength,
    TwoLists.refuses]
  by_cases hrefused : (chunk.isEmpty ||
    decide (capacity < byteLength (left ++ right) + byteLength chunk)) = true
  · rw [if_pos hrefused]
    exact (if_pos hrefused).symm
  · have hroom : byteLength (left ++ right) + byteLength chunk ≤ capacity := by
      simp only [Bool.or_eq_true, decide_eq_true_eq] at hrefused
      omega
    rw [if_neg hrefused, TwoLists.step, TwoLists.text, if_pos hroom, TwoLists.line,
      List.reverse_append]
    exact (if_neg hrefused).symm

/-- **An operation over an alphabet.** It is refused or a step on the two lists. -/
theorem result?_line (hp : A.Spells p.text) {op : Operation} (hop : A.Spells op.argument) :
    op.result? (p.line capacity) =
      if p.refuses capacity op then none else some ((p.step capacity op).line capacity) := by
  obtain ⟨left, right⟩ := p
  obtain ⟨hleft, hright⟩ : A.Spells left ∧ A.Spells right := Alphabet.spells_append.mp hp
  have hbefore : A.Spells left.reverse := Alphabet.spells_reverse.mpr hleft
  cases op with
  | insert chunk => exact insert_line hp hop
  | setText t =>
    have ht : A.Spells t := hop
    rw [Operation.result?, setText_of_spells ht]
    rfl
  | take => rfl
  -- What looks to the left is refused where there is nothing, and else it meets the last character.
  | left | backspace | deleteWord | home =>
    rcases hleft.eq_nil_or_concat with rfl | ⟨front, c, rfl, hfront, hc⟩
    · rfl
    · have hfront := Alphabet.spells_reverse.mpr hfront
      simp [Operation.result?, TwoLists.line, TwoLists.refuses, TwoLists.step, TwoLists.text,
        left_cons hc hfront hright, backspace_cons hc hfront hright,
        deleteWord_cons hc hfront hright, List.rdropWhile, home, text]
  | right | delete | moveEnd | killToEnd =>
    cases right with
    | nil => rfl
    | cons d right =>
      obtain ⟨hd, hright⟩ := Alphabet.spells_cons.mp hright
      simp [Operation.result?, TwoLists.line, TwoLists.refuses, TwoLists.step, TwoLists.text,
        right_cons hd hbefore hright, delete_cons hd hbefore hright, moveEnd, killToEnd, text]
  | clear =>
    rcases hleft.eq_nil_or_concat with rfl | ⟨front, c, rfl, -, -⟩
    · cases right <;> rfl
    · simp [Operation.result?, TwoLists.line, TwoLists.refuses, TwoLists.step, clear, isEmpty,
        TwoLists.empty]
  | transpose =>
    rcases hleft.eq_nil_or_concat with rfl | ⟨front, c, rfl, hfront, hc⟩
    · rfl
    · cases right with
      | nil => simp [Operation.result?, TwoLists.line, TwoLists.refuses, transpose]
      | cons d right =>
        obtain ⟨hd, hright⟩ := Alphabet.spells_cons.mp hright
        simp [Operation.result?, TwoLists.line, TwoLists.refuses, TwoLists.step,
          transpose_cons hc (Alphabet.spells_reverse.mpr hfront) hd hright]

/-- An operation over an alphabet leaves the line in it. -/
theorem spells_step (hp : A.Spells p.text) {op : Operation} (hop : A.Spells op.argument) :
    A.Spells (p.step capacity op).text := by
  obtain ⟨left, right⟩ := p
  obtain ⟨hleft, hright⟩ : A.Spells left ∧ A.Spells right := Alphabet.spells_append.mp hp
  have hdrop : A.Spells left.dropLast := hleft.of_subset (List.dropLast_subset left)
  have htail : A.Spells right.tail := hright.of_subset (List.tail_suffix right).subset
  have hlast : A.Spells left.getLast?.toList := by
    cases hc : left.getLast? with
    | none => exact Alphabet.spells_nil
    | some c => simpa using hleft c (List.mem_of_getLast? hc)
  have hhead : A.Spells right.head?.toList := by
    cases hc : right.head? with
    | none => exact Alphabet.spells_nil
    | some c => simpa using hright c (List.mem_of_head? hc)
  cases op with
  | insert chunk =>
    have hchunk : A.Spells chunk := hop
    rw [TwoLists.step]
    split
    · simp [TwoLists.text, hleft, hchunk, hright]
    · exact hp
  | left => simp [TwoLists.step, TwoLists.text, hdrop, hlast, hright]
  | right => simp [TwoLists.step, TwoLists.text, hleft, hhead, htail]
  | home => exact hp
  | moveEnd => simpa [TwoLists.step, TwoLists.text] using hp
  | delete => simp [TwoLists.step, TwoLists.text, hleft, htail]
  | backspace => simp [TwoLists.step, TwoLists.text, hdrop, hright]
  | deleteWord =>
    have hwords := hleft.of_subset
      ((List.rdropWhile_prefix (· == ' ') left).subset)
    simp [TwoLists.step, TwoLists.text, hright,
      hwords.of_subset (List.rdropWhile_prefix (· != ' ') _).subset]
  | killToEnd => simpa [TwoLists.step, TwoLists.text] using hleft
  | clear | take => exact Alphabet.spells_nil
  | transpose =>
    rw [TwoLists.step]
    split
    · next c d hc hd =>
      have hmem := hleft c (List.mem_of_getLast? hc)
      have hmem' := hright d (List.mem_of_head? hd)
      simp [TwoLists.text, hdrop, hmem, hmem', htail]
    · exact hp
  | setText t =>
    have ht : A.Spells t := hop
    simpa [TwoLists.step, TwoLists.text] using ht.of_subset (longestPrefix_subset capacity t)

private theorem apply_line (hp : A.Spells p.text) {op : Operation} (hop : A.Spells op.argument) :
    op.apply (p.line capacity) = (p.step capacity op).line capacity := by
  rw [Operation.apply, result?_line hp hop]
  split
  · next h => rw [TwoLists.step_of_refuses h, Option.getD_none]
  · rfl

theorem spells_steps {ops : List Operation} (h : ∀ op ∈ ops, A.Spells op.argument) :
    A.Spells (TwoLists.steps capacity ops).text := by
  induction ops using List.reverseRecOn with
  | nil => exact Alphabet.spells_nil
  | append_singleton ops op ih =>
    rw [List.forall_mem_append, List.forall_mem_singleton] at h
    rw [TwoLists.steps_concat]
    exact spells_step (ih h.1) h.2

/-- After any operations over an alphabet, a line is the one of the two lists. -/
theorem edited_eq_line {ops : List Operation} (h : ∀ op ∈ ops, A.Spells op.argument) :
    (empty capacity).edited ops = (TwoLists.steps capacity ops).line capacity := by
  induction ops using List.reverseRecOn with
  | nil => rfl
  | append_singleton ops op ih =>
    rw [List.forall_mem_append, List.forall_mem_singleton] at h
    rw [edited_concat, ih h.1, TwoLists.steps_concat, apply_line (spells_steps h.1) h.2]

/-- **Lines over an alphabet are edited as two lists.** After any operations whose texts are spelled
in an alphabet of characters that never join, the text of the line is that of the two lists, and the
cursor stands between them. An operation is then refused if and only if the two lists refuse it. -/
theorem edited_eq_twoLists (A : Alphabet) (capacity : Nat) {ops : List Operation}
    (h : ∀ op ∈ ops, A.Spells op.argument) :
    ((empty capacity).edited ops).text =
        (TwoLists.steps capacity ops).left ++ (TwoLists.steps capacity ops).right ∧
      ((empty capacity).edited ops).cursor = byteLength (TwoLists.steps capacity ops).left ∧
      ∀ op : Operation, A.Spells op.argument →
        (op.result? ((empty capacity).edited ops)).isNone =
          (TwoLists.steps capacity ops).refuses capacity op := by
  rw [edited_eq_line h]
  refine ⟨TwoLists.text_line _ capacity, TwoLists.cursor_line _ capacity, fun op hop => ?_⟩
  rw [result?_line (spells_steps h) hop]
  cases (TwoLists.steps capacity ops).refuses capacity op <;> rfl

/-- Operations on a line of nine bytes, among them an insertion for which there is no room. -/
def nineBytes : List Operation :=
  [.insert ['a', 'b', ' ', '漢'], .left, .insert ['w', 'x', 'y', 'z'], .insert ['é'], .transpose,
    .deleteWord]

/-- The word that was swapped together is deleted, and the space before it is left. -/
theorem edited_eq_twoLists_nineBytes :
    ((empty 9).edited nineBytes).text = ['a', 'b', ' '] ∧
      ((empty 9).edited nineBytes).cursor = 3 ∧
      (Operation.result? (.insert ['漢', '字', 'é']) ((empty 9).edited nineBytes)).isNone = true := by
  have hspelled : ∀ op ∈ nineBytes, Alphabet.ordinary.Spells op.argument := by decide +kernel
  obtain ⟨htext, hcursor, hrefused⟩ := edited_eq_twoLists .ordinary 9 hspelled
  refine ⟨htext.trans (by decide), hcursor.trans (by decide), ?_⟩
  rw [hrefused _ (by decide +kernel)]
  decide

end Line

end Typeline
