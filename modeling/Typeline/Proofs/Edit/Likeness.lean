import Mathlib.Data.List.Forall2
import Typeline.Proofs.Edit.TwoLists

/-!
# Lines that are alike

Two lines may be related in such a way that all operations keep it: an operation is refused on both,
or leads to two lines that are related again. Equality is such a `Likeness`. There are coarser ones
over an alphabet of characters that never join, where editing looks at a character only for the
number of its bytes and for being a space: whatever else a character is, lines that agree in these
two go the same way. A `CharLikeness` says which characters may then stand for each other. That
editing keeps such a relation is shown for the editor on two lists, which is what a line is over an
alphabet.

## Main definitions

* `Likeness` : relations of characters, texts and lines that editing keeps.
* `Likeness.equality` : the finest one.
* `CharLikeness`, `CharLikeness.likeness` : which characters of an alphabet stand for each other,
  and the likeness of lines that comes of it.
* `CharLikeness.same`, `CharLikeness.shape` : only equal characters, or all that can.

## Main results

* `CharLikeness.Lists.step` : operations that are alike, on two lists each.
* `CharLikeness.Lines.result?` : operations that are alike, on lines that are alike.
-/

namespace Typeline

section Forall₂

variable {α β : Type} {R : α → β → Prop} {l : List α} {l' : List β} (h : List.Forall₂ R l l')

include h

theorem isEmpty_eq_of_forall₂ : l'.isEmpty = l.isEmpty := by
  cases h <;> rfl

theorem forall₂_dropLast : List.Forall₂ R l.dropLast l'.dropLast := by
  rw [List.dropLast_eq_take, List.dropLast_eq_take, h.length_eq]
  exact List.forall₂_take _ h

end Forall₂

/-- The same operation, with texts that are related. -/
inductive Line.Operation.Alike (Texts : Text → Text → Prop) :
    Line.Operation → Line.Operation → Prop where
  /-- Insert texts that are related. -/
  | insert {t u : Text} (texts : Texts t u) : Alike Texts (.insert t) (.insert u)
  /-- Replace the lines by texts that are related. -/
  | setText {t u : Text} (texts : Texts t u) : Alike Texts (.setText t) (.setText u)
  /-- Do something that needs no text. -/
  | plain (op : Line.Operation) (argument : op.argument = []) : Alike Texts op op

/-- Which characters of an alphabet may stand for each other: those that stand for each other take
as many bytes, and both or none of them are spaces. -/
structure CharLikeness where
  /-- The alphabet. -/
  alphabet : Alphabet
  /-- Characters that may stand for each other. -/
  Chars : Char → Char → Prop
  mem {c d : Char} : Chars c d → c ∈ alphabet ∧ d ∈ alphabet
  utf8Size_eq {c d : Char} : Chars c d → d.utf8Size = c.utf8Size
  space_iff {c d : Char} : Chars c d → (d = ' ' ↔ c = ' ')

namespace CharLikeness

/-- Only equal characters stand for each other. -/
def same (A : Alphabet) : CharLikeness where
  alphabet := A
  Chars c d := d = c ∧ c ∈ A
  mem h := ⟨h.2, h.1 ▸ h.2⟩
  utf8Size_eq h := by rw [h.1]
  space_iff h := by rw [h.1]

/-- All characters stand for each other that can. -/
def shape (A : Alphabet) : CharLikeness where
  alphabet := A
  Chars c d := (c ∈ A ∧ d ∈ A) ∧ d.utf8Size = c.utf8Size ∧ (d = ' ' ↔ c = ' ')
  mem h := h.1
  utf8Size_eq h := h.2.1
  space_iff h := h.2.2

instance (A : Alphabet) [DecidablePred (· ∈ A)] (c d : Char) : Decidable ((shape A).Chars c d) :=
  inferInstanceAs (Decidable ((c ∈ A ∧ d ∈ A) ∧ d.utf8Size = c.utf8Size ∧ (d = ' ' ↔ c = ' ')))

variable (r : CharLikeness)

/-- Texts whose characters stand for each other, position by position. -/
def Texts (t u : Text) : Prop := List.Forall₂ r.Chars t u

instance [∀ c d, Decidable (r.Chars c d)] (t u : Text) : Decidable (r.Texts t u) :=
  inferInstanceAs (Decidable (List.Forall₂ r.Chars t u))

/-- Texts alike on the two sides of a cursor. -/
structure Lists (p p' : TwoLists) : Prop where
  left : r.Texts p.left p'.left
  right : r.Texts p.right p'.right

/-- Lines with texts alike on the two sides of the cursor. -/
structure Lines (l l' : Line) : Prop where
  before : r.Texts l.before l'.before
  after : r.Texts l.after l'.after
  capacity_eq : l'.capacity = l.capacity

variable {r}

/-! ### Texts -/

namespace Texts

variable {t u : Text} (h : r.Texts t u)

include h

theorem spells : r.alphabet.Spells t ∧ r.alphabet.Spells u := by
  induction h with
  | nil => exact ⟨Alphabet.spells_nil, Alphabet.spells_nil⟩
  | cons hc _ ih =>
    obtain ⟨hleft, hright⟩ := r.mem hc
    exact ⟨Alphabet.spells_cons.mpr ⟨hleft, ih.1⟩, Alphabet.spells_cons.mpr ⟨hright, ih.2⟩⟩

theorem length_eq : u.length = t.length := (List.Forall₂.length_eq h).symm

theorem byteLength_eq : byteLength u = byteLength t := by
  induction h with
  | nil => rfl
  | cons hc _ ih => rw [byteLength_cons, byteLength_cons, ih, r.utf8Size_eq hc]

theorem isEmpty_eq : u.isEmpty = t.isEmpty := isEmpty_eq_of_forall₂ h

theorem reverse : r.Texts t.reverse u.reverse := List.rel_reverse h

theorem append {s v : Text} (h' : r.Texts s v) : r.Texts (t ++ s) (u ++ v) := List.rel_append h h'

theorem take (n : Nat) : r.Texts (t.take n) (u.take n) := List.forall₂_take n h

theorem dropWhile {p : Char → Bool} (hp : ∀ c d, r.Chars c d → p d = p c) :
    r.Texts (t.dropWhile p) (u.dropWhile p) := by
  induction h with
  | nil => exact .nil
  | @cons c d t u hc htail ih =>
    rw [List.dropWhile_cons, List.dropWhile_cons, hp c d hc]
    split
    · exact ih
    · exact .cons hc htail

theorem tail : r.Texts t.tail u.tail := by
  cases h with
  | nil => exact .nil
  | cons _ htail => exact htail

theorem dropLast : r.Texts t.dropLast u.dropLast := forall₂_dropLast h

theorem rdropWhile {p : Char → Bool} (hp : ∀ c d, r.Chars c d → p d = p c) :
    r.Texts (t.rdropWhile p) (u.rdropWhile p) :=
  (h.reverse.dropWhile hp).reverse

theorem head? : Option.Rel r.Chars t.head? u.head? := by
  cases h with
  | nil => exact .none
  | cons hc _ => exact .some hc

theorem getLast? : Option.Rel r.Chars t.getLast? u.getLast? := by
  rw [← List.head?_reverse, ← List.head?_reverse]
  exact h.reverse.head?

theorem longestPrefix (room : Nat) :
    r.Texts (Line.longestPrefix room t) (Line.longestPrefix room u) := by
  have hbytes : (fun k => byteLength (u.take k) ≤ room) = fun k => byteLength (t.take k) ≤ room :=
    funext fun k => by rw [(h.take k).byteLength_eq]
  simp only [Line.longestPrefix, hbytes, h.length_eq]
  exact h.take _

end Texts

private theorem beq_space_eq {c d : Char} (h : r.Chars c d) : (d == ' ') = (c == ' ') := by
  rw [Bool.eq_iff_iff, beq_iff_eq, beq_iff_eq]
  exact r.space_iff h

theorem texts_nil : r.Texts [] [] := List.Forall₂.nil

theorem texts_singleton {c d : Char} (h : r.Chars c d) : r.Texts [c] [d] := .cons h .nil

private theorem texts_toList {c d : Option Char} (h : Option.Rel r.Chars c d) :
    r.Texts c.toList d.toList := by
  cases h with
  | none => exact texts_nil
  | some hc => exact texts_singleton hc

theorem spells_of_forall₂ {ts us : List Text} (h : List.Forall₂ r.Texts ts us) :
    (∀ t ∈ ts, r.alphabet.Spells t) ∧ ∀ u ∈ us, r.alphabet.Spells u := by
  induction h with
  | nil => exact ⟨fun _ ht => absurd ht List.not_mem_nil, fun _ hu => absurd hu List.not_mem_nil⟩
  | cons htexts _ ih =>
    obtain ⟨hleft, hright⟩ := Texts.spells htexts
    exact ⟨List.forall_mem_cons.mpr ⟨hleft, ih.1⟩, List.forall_mem_cons.mpr ⟨hright, ih.2⟩⟩

theorem texts_same_iff {A : Alphabet} {t u : Text} :
    (same A).Texts t u ↔ u = t ∧ A.Spells t := by
  constructor
  · intro h
    induction h with
    | nil => exact ⟨rfl, Alphabet.spells_nil⟩
    | cons hc _ ih =>
      obtain ⟨rfl, hspells⟩ := ih
      obtain ⟨rfl, hmem⟩ := hc
      exact ⟨rfl, Alphabet.spells_cons.mpr ⟨hmem, hspells⟩⟩
  · rintro ⟨rfl, hspells⟩
    exact List.forall₂_same.mpr fun c hc => ⟨rfl, hspells c hc⟩

/-! ### Lines -/

private theorem lines_empty (capacity : Nat) : r.Lines (.empty capacity) (.empty capacity) :=
  ⟨.nil, .nil, rfl⟩

namespace Lines

variable {l l' : Line} (h : r.Lines l l')

include h

theorem text : r.Texts l.text l'.text := h.before.reverse.append h.after

theorem textBefore : r.Texts l.textBefore l'.textBefore := h.before.reverse

theorem atEnd_eq : l'.atEnd = l.atEnd := h.after.isEmpty_eq

private theorem isEmpty_eq : l'.isEmpty = l.isEmpty := by
  rw [Line.isEmpty, Line.isEmpty, h.before.isEmpty_eq, h.after.isEmpty_eq]

end Lines

/-! ### Operations -/

/-- The texts of operations that are alike are spelled in the alphabet. -/
theorem spells_argument {op op' : Line.Operation} (h : op.Alike r.Texts op') :
    r.alphabet.Spells op.argument ∧ r.alphabet.Spells op'.argument := by
  cases h with
  | insert htexts | setText htexts => exact htexts.spells
  | plain op hargument =>
    rw [hargument]
    exact ⟨Alphabet.spells_nil, Alphabet.spells_nil⟩

namespace Lists

variable {p p' : TwoLists} (h : r.Lists p p') (capacity : Nat)

include h

theorem text : r.Texts p.text p'.text := h.left.append h.right

theorem line : r.Lines (p.line capacity) (p'.line capacity) := ⟨h.left.reverse, h.right, rfl⟩

/-- An operation is refused on both lists or on neither. -/
theorem refuses_eq {op op' : Line.Operation} (hop : op.Alike r.Texts op') :
    p'.refuses capacity op' = p.refuses capacity op := by
  cases hop with
  | insert htexts =>
    simp only [TwoLists.refuses, htexts.isEmpty_eq, htexts.byteLength_eq, h.text.byteLength_eq]
  | setText => rfl
  | plain op =>
    cases op <;>
      simp only [TwoLists.refuses, h.left.isEmpty_eq, h.right.isEmpty_eq, h.text.byteLength_eq]

/-- **A step on two lists** looks at no more of a character than its likes share. -/
theorem step {op op' : Line.Operation} (hop : op.Alike r.Texts op') :
    r.Lists (p.step capacity op) (p'.step capacity op') := by
  have hinsert {t u : Text} (htexts : r.Texts t u) :
      r.Lists (p.step capacity (.insert t)) (p'.step capacity (.insert u)) := by
    rw [TwoLists.step, TwoLists.step, h.text.byteLength_eq, htexts.byteLength_eq]
    split
    · exact ⟨h.left.append htexts, h.right⟩
    · exact h
  have hsetText {t u : Text} (htexts : r.Texts t u) :
      r.Lists (p.step capacity (.setText t)) (p'.step capacity (.setText u)) :=
    ⟨htexts.longestPrefix capacity, .nil⟩
  cases hop with
  | insert htexts => exact hinsert htexts
  | setText htexts => exact hsetText htexts
  | plain op hargument =>
    cases op with
    | insert chunk =>
      obtain rfl : chunk = [] := hargument
      exact hinsert texts_nil
    | setText t =>
      obtain rfl : t = [] := hargument
      exact hsetText texts_nil
    | left => exact ⟨h.left.dropLast, (texts_toList h.left.getLast?).append h.right⟩
    | right => exact ⟨h.left.append (texts_toList h.right.head?), h.right.tail⟩
    | home => exact ⟨.nil, h.text⟩
    | moveEnd => exact ⟨h.text, .nil⟩
    | delete => exact ⟨h.left, h.right.tail⟩
    | backspace => exact ⟨h.left.dropLast, h.right⟩
    | deleteWord =>
      have hspaces := h.left.rdropWhile fun _ _ => beq_space_eq
      exact ⟨hspaces.rdropWhile fun _ _ hc => congrArg (!·) (beq_space_eq hc), h.right⟩
    | killToEnd => exact ⟨h.left, .nil⟩
    | clear | take => exact ⟨.nil, .nil⟩
    | transpose =>
      have hlast := h.left.getLast?
      have hhead := h.right.head?
      rw [TwoLists.step, TwoLists.step]
      revert hlast hhead
      generalize p.left.getLast? = c
      generalize p'.left.getLast? = c'
      generalize p.right.head? = d
      generalize p'.right.head? = d'
      intro hlast hhead
      cases hlast with
      | none => exact h
      | some hc =>
        cases hhead with
        | none => exact h
        | some hd => exact ⟨h.left.dropLast.append (.cons hd (.cons hc .nil)), h.right.tail⟩

end Lists

/-- **Operations that are alike.** On lines that are alike, both are refused, or they lead to lines
that are alike. -/
theorem Lines.result? {l l' : Line} (h : r.Lines l l') {op op' : Line.Operation}
    (hop : op.Alike r.Texts op') : Option.Rel r.Lines (op.result? l) (op'.result? l') := by
  have hlists : r.Lists ⟨l.before.reverse, l.after⟩ ⟨l'.before.reverse, l'.after⟩ :=
    ⟨h.before.reverse, h.after⟩
  have hline (l : Line) : l = TwoLists.line ⟨l.before.reverse, l.after⟩ l.capacity := by
    rw [TwoLists.line, List.reverse_reverse]
  obtain ⟨hspells, hspells'⟩ := hlists.text.spells
  obtain ⟨hargument, hargument'⟩ := spells_argument hop
  rw [hline l, hline l', h.capacity_eq, Line.result?_line hspells hargument,
    Line.result?_line hspells' hargument', hlists.refuses_eq l.capacity hop]
  split
  · exact .none
  · exact .some ((hlists.step l.capacity hop).line l.capacity)

end CharLikeness

/-! ### Likenesses in general -/

/-- Relations of characters, texts and lines that editing keeps. -/
structure Likeness where
  Chars : Char → Char → Prop
  Texts : Text → Text → Prop
  Lines : Line → Line → Prop
  texts_nil : Texts [] []
  texts_singleton {c d : Char} : Chars c d → Texts [c] [d]
  lines_empty (capacity : Nat) : Lines (.empty capacity) (.empty capacity)
  lines_text {l l' : Line} : Lines l l' → Texts l.text l'.text
  capacity_eq {l l' : Line} : Lines l l' → l'.capacity = l.capacity
  atEnd_eq {l l' : Line} : Lines l l' → l'.atEnd = l.atEnd
  isEmpty_eq {l l' : Line} : Lines l l' → l'.isEmpty = l.isEmpty
  lines_result? {l l' : Line} {op op' : Line.Operation} :
    Lines l l' → op.Alike Texts op' → Option.Rel Lines (op.result? l) (op'.result? l')

namespace Likeness

/-- Equality, in which any character may occur. -/
def equality : Likeness where
  Chars c d := d = c
  Texts t u := u = t
  Lines l l' := l' = l
  texts_nil := rfl
  texts_singleton h := by rw [h]
  lines_empty _ := rfl
  lines_text h := by rw [h]
  capacity_eq h := by rw [h]
  atEnd_eq h := by rw [h]
  isEmpty_eq h := by rw [h]
  lines_result? {l l' op op'} hline hop := by
    obtain rfl : op' = op := by
      cases hop with
      | insert htexts | setText htexts => rw [htexts]
      | plain => rfl
    rw [hline]
    cases op'.result? l with
    | none => exact .none
    | some line => exact .some rfl

variable {r : Likeness}

theorem lines_setText {l l' : Line} (h : r.Lines l l') {t u : Text} (htexts : r.Texts t u) :
    r.Lines (l.setText t) (l'.setText u) := by
  have hresult := r.lines_result? h (.setText htexts)
  simp only [Line.Operation.result?] at hresult
  cases hresult with
  | some hlines => exact hlines

end Likeness

/-- The likeness of texts and lines whose characters may stand for each other. -/
def CharLikeness.likeness (r : CharLikeness) : Likeness where
  Chars := r.Chars
  Texts := r.Texts
  Lines := r.Lines
  texts_nil := texts_nil
  texts_singleton := texts_singleton
  lines_empty := lines_empty
  lines_text h := h.text
  capacity_eq h := h.capacity_eq
  atEnd_eq h := h.atEnd_eq
  isEmpty_eq h := h.isEmpty_eq
  lines_result? h hop := h.result? hop

instance (r : CharLikeness) [∀ c d, Decidable (r.Chars c d)] (c d : Char) :
    Decidable (r.likeness.Chars c d) :=
  inferInstanceAs (Decidable (r.Chars c d))

end Typeline
