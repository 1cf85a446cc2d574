import Typeline.Proofs.Edit.CursorOffset
import Typeline.Proofs.Text.Parts

/-!
# Taking back what was inserted

Backspace takes back what was inserted if there is just one cluster to take back: if the text that
was inserted is a cluster by itself and is still one between the texts on its two sides. It may be
of any length. In every other case something else comes of the two: of a text of several clusters
only the last one goes, what joined the text to its left goes with it, and so does what joined the
text to its right, since the cursor goes behind that.

## Main results

* `isGreatest_border_iff` : a piece between two borders that are next to each other is a cluster.
* `Line.restored_iff` : when backspace takes back what was inserted.
* `Line.exists_backspace_insert` : the same in the words of clusters.
-/

namespace Typeline

/-! ### Neighbouring borders -/

private theorem mem_startsFrom_le {s o : Nat} {parts : List Text} (h : o ∈ startsFrom s parts) :
    s ≤ o ∧ o ≤ s + byteLength parts.flatten := by
  induction parts generalizing s with
  | nil => exact absurd h List.not_mem_nil
  | cons part parts ih =>
    rw [List.flatten_cons, byteLength_append]
    rcases List.mem_cons.mp h with rfl | hlater
    · exact ⟨Nat.le_refl _, Nat.le_add_right _ _⟩
    · obtain ⟨hle, hle'⟩ := ih hlater
      omega

/-- Where clusters start, seen from the start of the text. -/
theorem mem_startsFrom_clusters {t : Text} {o : Nat} :
    o ∈ startsFrom 0 (clusters t) ↔ o < byteLength t ∧ isBorderAt t o = true := by
  have hstart : splitAtByte? 0 t = some ([], t) := splitAtByte?_eq_some.mpr ⟨rfl, rfl⟩
  have hmem := mem_startsFrom_clustersAfter hstart (holdsAt_of_splitAtByte? hstart) o
  rw [clusters, hmem]
  exact and_iff_right (Nat.zero_le o)

section Neighbours

variable {s chunk u : Text}

/-- A cluster of a text starts and ends at borders that have none between them. -/
theorem isGreatest_border_of_clusters {parts parts' : List Text}
    (hclusters : clusters (s ++ chunk ++ u) = parts ++ chunk :: parts') (hs : parts.flatten = s)
    (hchunk : chunk ≠ []) :
    isBorderAt (s ++ chunk ++ u) (byteLength s + byteLength chunk) = true ∧
      IsGreatest {o | o < byteLength s + byteLength chunk ∧ isBorderAt (s ++ chunk ++ u) o = true}
        (byteLength s) := by
  have hmem (o : Nat) := mem_startsFrom_clusters (t := s ++ chunk ++ u) (o := o)
  have hlength : byteLength (s ++ chunk ++ u) =
      byteLength s + byteLength chunk + byteLength u := by
    rw [byteLength_append, byteLength_append]
  have hpos := byteLength_pos hchunk
  simp only [hclusters, startsFrom_append, hs, Nat.zero_add, startsFrom, List.mem_append,
    List.mem_cons] at hmem
  have hend : isBorderAt (s ++ chunk ++ u) (byteLength s + byteLength chunk) = true := by
    cases parts' with
    | nil =>
      -- The cluster is the last one, and its end the end of the text.
      have hflatten := congrArg List.flatten hclusters
      rw [flatten_clusters, List.flatten_append, List.flatten_cons, List.flatten_nil,
        List.append_nil, hs, List.append_assoc, List.append_cancel_left_eq,
        List.append_right_eq_self] at hflatten
      rw [hflatten, List.append_nil, ← byteLength_append, isBorderAt,
        holdsAt_of_splitAtByte? (splitAtByte?_length _), isBoundary_nil_right]
    | cons part parts' => exact ((hmem _).mp (Or.inr (Or.inr List.mem_cons_self))).2
  refine ⟨hend, ⟨by omega, ((hmem _).mp (Or.inr (Or.inl rfl))).2⟩, fun o ho => ?_⟩
  have hlt := ho.1
  rcases (hmem o).mpr ⟨by omega, ho.2⟩ with hearlier | rfl | hlater
  · have := (mem_startsFrom_le hearlier).2
    rw [hs] at this
    omega
  · exact Nat.le_refl _
  · have := (mem_startsFrom_le hlater).1
    omega

/-- A piece of a text between two borders that have none between them is a cluster. -/
theorem clusters_of_isGreatest_border (hchunk : chunk ≠ [])
    (hend : isBorderAt (s ++ chunk ++ u) (byteLength s + byteLength chunk) = true)
    (hgreatest : IsGreatest
      {o | o < byteLength s + byteLength chunk ∧ isBorderAt (s ++ chunk ++ u) o = true}
      (byteLength s)) :
    clusters chunk = [chunk] ∧
      clusters (s ++ chunk ++ u) = clusters s ++ chunk :: clusters u := by
  have hsplit : splitAtByte? (byteLength s) (s ++ chunk ++ u) = some (s.reverse, chunk ++ u) :=
    splitAtByte?_eq_some.mpr ⟨by simp, byteLength_reverse s⟩
  have hsplit' : splitAtByte? (byteLength s + byteLength chunk) (s ++ chunk ++ u) =
      some ((s ++ chunk).reverse, u) :=
    splitAtByte?_eq_some.mpr ⟨by simp, by rw [byteLength_reverse, byteLength_append]⟩
  have hfirst := hgreatest.1.2
  rw [isBorderAt, holdsAt_of_splitAtByte? hsplit] at hfirst
  rw [isBorderAt, holdsAt_of_splitAtByte? hsplit', List.reverse_append,
    isBoundary_append_of_isBoundary hfirst hchunk] at hend
  have hcut : clusters (s ++ chunk ++ u) = clusters s ++ (clusters chunk ++ clusters u) := by
    rw [List.append_assoc, clusters_append_of_isBoundary hfirst,
      clusters_append_of_isBoundary hend]
  obtain ⟨c, rest, hcons⟩ := List.exists_cons_of_ne_nil hchunk
  obtain ⟨first, more, hparts⟩ :=
    List.exists_cons_of_ne_nil (hcons ▸ clustersAfter_ne_nil [] c rest : clusters chunk ≠ [])
  have hflatten := flatten_clusters chunk
  have hmore : more = [] := by
    by_contra hne
    obtain ⟨second, later, rfl⟩ := List.exists_cons_of_ne_nil hne
    -- The second cluster would start at a border between the two.
    have hborder : byteLength s + byteLength first ∈ startsFrom 0 (clusters (s ++ chunk ++ u)) := by
      rw [hcut, hparts, startsFrom_append, flatten_clusters, Nat.zero_add, List.cons_append,
        startsFrom, List.cons_append, startsFrom]
      simp
    have hpos := byteLength_pos (ne_nil_of_mem_clusters (hparts ▸ List.mem_cons_self :
      first ∈ clusters chunk))
    have hpos' := byteLength_pos (ne_nil_of_mem_clusters (hparts ▸ by simp :
      second ∈ clusters chunk))
    have hlength := congrArg byteLength hflatten
    rw [hparts, List.flatten_cons, List.flatten_cons, byteLength_append, byteLength_append]
      at hlength
    have hle := hgreatest.2 ⟨by omega, (mem_startsFrom_clusters.mp hborder).2⟩
    omega
  rw [hparts, hmore, List.flatten_cons, List.flatten_nil, List.append_nil] at hflatten
  have hsingle : clusters chunk = [chunk] := by rw [hparts, hmore, hflatten]
  exact ⟨hsingle, by rw [hcut, hsingle, List.singleton_append]⟩

/-- **Neighbouring borders.** A piece of a text starts and ends at borders that have none between
them if and only if it is a cluster by itself and one of the clusters of the text. -/
theorem isGreatest_border_iff (hchunk : chunk ≠ []) :
    (isBorderAt (s ++ chunk ++ u) (byteLength s + byteLength chunk) = true ∧
      IsGreatest {o | o < byteLength s + byteLength chunk ∧ isBorderAt (s ++ chunk ++ u) o = true}
        (byteLength s)) ↔
    clusters chunk = [chunk] ∧
      ∃ parts parts', clusters (s ++ chunk ++ u) = parts ++ chunk :: parts' ∧
        parts.flatten = s := by
  constructor
  · rintro ⟨hend, hgreatest⟩
    obtain ⟨hsingle, hclusters⟩ := clusters_of_isGreatest_border hchunk hend hgreatest
    exact ⟨hsingle, clusters s, clusters u, hclusters, flatten_clusters s⟩
  · rintro ⟨-, parts, parts', hclusters, hs⟩
    exact isGreatest_border_of_clusters hclusters hs hchunk

end Neighbours

namespace Line

variable {l l' l'' : Line} {chunk : Text}

/-! ### What is inserted, and what backspace makes of it -/

theorem text_insert (h : l.insert chunk = some l') :
    l'.text = l.textBefore ++ chunk ++ l.after := by
  rw [← eq_of_not_refused h, text_settled, text, List.reverse_append, List.reverse_reverse]
  rfl

/-- The cursor goes to the least border that is not inside of what was inserted. -/
theorem isLeast_insert (h : l.insert chunk = some l') :
    IsLeast {o | l.cursor + byteLength chunk ≤ o ∧ isBorderAt l'.text o = true} l'.cursor := by
  have hleast := isLeast_settled { l with before := chunk.reverse ++ l.before }
  have hcursor : cursor { l with before := chunk.reverse ++ l.before } =
      l.cursor + byteLength chunk := by
    rw [cursor, byteLength_append, byteLength_reverse, Nat.add_comm]
    rfl
  rw [hcursor, ← text_settled, eq_of_not_refused h] at hleast
  exact hleast

private theorem exists_backspace (h : l.insert chunk = some l') :
    ∃ l'', l'.backspace = some l'' := by
  have hbehind := (isLeast_insert h).1.1
  have hpos := byteLength_pos (chunk_ne_nil h)
  refine ⟨_, if_neg ?_⟩
  rw [List.isEmpty_iff]
  intro hnil
  rw [cursor.eq_1 l', hnil, byteLength_nil] at hbehind
  omega

/-- Backspace cuts the text before the cursor, and leaves what is after it. -/
theorem splitAtByte?_backspace (h : l.backspace = some l') :
    l'.after = l.after ∧ ∃ after, splitAtByte? l'.cursor l.text = some (l'.before, after) := by
  have hsplit := splitAtByte?_backward l.splitAtByte?_cursor
  have hcursor := byteLength_before_of_splitAtByte? hsplit
  rw [← eq_of_not_refused h]
  refine ⟨rfl, (backward l.before l.after).2, ?_⟩
  rw [← hcursor] at hsplit
  exact hsplit

/-- **Backspace takes back what was inserted** if and only if there is a border behind it and the
one before that is where it was inserted. -/
theorem restored_iff (h : l.insert chunk = some l') (hback : l'.backspace = some l'') :
    l''.text = l.text ∧ l''.cursor = l.cursor ↔
      isBorderAt l'.text (l.cursor + byteLength chunk) = true ∧
        IsGreatest {o | o < l.cursor + byteLength chunk ∧ isBorderAt l'.text o = true}
          l.cursor := by
  have hleast := isLeast_insert h
  have hgreatest := isGreatest_backspace hback
  obtain ⟨hafter, rest, hsplit⟩ := splitAtByte?_backspace hback
  have htext := text_insert h
  constructor
  · rintro ⟨hrestored, hcursor⟩
    -- What was inserted is as long as what was removed, so the cursor stands right behind it.
    have hbehind : l'.cursor = l.cursor + byteLength chunk := by
      have hlength := congrArg byteLength hrestored
      have hlength' := congrArg byteLength htext
      rw [byteLength_text, byteLength_text, length, length] at hlength
      rw [byteLength_text, length, byteLength_append, byteLength_append, textBefore,
        byteLength_reverse] at hlength'
      rw [cursor, cursor] at hcursor
      rw [hafter] at hlength
      change byteLength l'.before = byteLength l.before + byteLength chunk
      omega
    rw [hbehind, hcursor] at hgreatest
    rw [hbehind] at hleast
    exact ⟨hleast.1.2, hgreatest⟩
  · rintro ⟨hend, hstart⟩
    have hbehind : l'.cursor = l.cursor + byteLength chunk :=
      Nat.le_antisymm (hleast.2 ⟨Nat.le_refl _, hend⟩) hleast.1.1
    rw [hbehind] at hgreatest
    have hcursor : l''.cursor = l.cursor := hgreatest.unique hstart
    have hstands := l'.splitAtByte?_cursor
    rw [hbehind, htext] at hstands
    rw [hcursor, htext] at hsplit
    have hinserted : splitAtByte? (l.cursor + byteLength chunk) (l.textBefore ++ chunk ++ l.after) =
        some ((l.textBefore ++ chunk).reverse, l.after) := by
      refine splitAtByte?_eq_some.mpr ⟨by rw [List.reverse_reverse], ?_⟩
      rw [byteLength_reverse, byteLength_append, textBefore, byteLength_reverse]
      rfl
    have hbefore : splitAtByte? l.cursor (l.textBefore ++ chunk ++ l.after) =
        some (l.before, chunk ++ l.after) :=
      splitAtByte?_eq_some.mpr ⟨by rw [textBefore, List.append_assoc], rfl⟩
    obtain ⟨-, hafter'⟩ := Prod.mk.inj (Option.some.inj (hstands.symm.trans hinserted))
    obtain ⟨hbefore', -⟩ := Prod.mk.inj (Option.some.inj (hsplit.symm.trans hbefore))
    exact ⟨by rw [text, text, hbefore', hafter, hafter'], hcursor⟩

/-- **Inserting and taking back.** Whatever is inserted, backspace then removes something. It
restores the text and the cursor if and only if there is a border of clusters behind what was
inserted, and the greatest border before that is where it was inserted: that is, if what was
inserted is one cluster by itself, and one of the clusters of the text then. -/
theorem exists_backspace_insert (h : l.insert chunk = some l') :
    ∃ l'', l'.backspace = some l'' ∧
      (l''.text = l.text ∧ l''.cursor = l.cursor ↔
        isBorderAt l'.text (l.cursor + byteLength chunk) = true ∧
          IsGreatest {o | o < l.cursor + byteLength chunk ∧ isBorderAt l'.text o = true}
            l.cursor) ∧
      (l''.text = l.text ∧ l''.cursor = l.cursor ↔
        clusters chunk = [chunk] ∧ ∃ parts parts', clusters l'.text = parts ++ chunk :: parts' ∧
          parts.flatten = l.textBefore) := by
  obtain ⟨l'', hback⟩ := exists_backspace h
  have hiff := restored_iff h hback
  have hcursor : l.cursor = byteLength l.textBefore := (byteLength_reverse _).symm
  refine ⟨l'', hback, hiff, hiff.trans ?_⟩
  rw [text_insert h, hcursor]
  exact isGreatest_border_iff (chunk_ne_nil h)

/-- A line with an emoji, and the cursor before it. -/
def beforeEmoji : Line := ⟨['b', 'a'], ['😀', 'c', 'd'], defaultCapacity⟩

/-- A family, which is one cluster of eighteen bytes. -/
def family : Text := ['👨', joiner, '👩', joiner, '👧']

/-- A family is taken back. A joiner is not, since it joins the letter before it to the emoji behind
it. -/
theorem exists_backspace_insert_family :
    (∃ l' l'', beforeEmoji.insert family = some l' ∧ l'.backspace = some l'' ∧
      l''.text = beforeEmoji.text ∧ l''.cursor = beforeEmoji.cursor) ∧
    ∃ l' l'', beforeEmoji.insert [joiner] = some l' ∧ l'.backspace = some l'' ∧
      ¬(l''.text = beforeEmoji.text ∧ l''.cursor = beforeEmoji.cursor) := by
  constructor
  · have hinsert : beforeEmoji.insert family =
        some ⟨family.reverse ++ ['b', 'a'], ['😀', 'c', 'd'], defaultCapacity⟩ := by decide +kernel
    obtain ⟨l'', hback, -, hiff⟩ := exists_backspace_insert hinsert
    refine ⟨_, l'', hinsert, hback, hiff.mpr ⟨by decide +kernel, [['a'], ['b']], ?_⟩⟩
    exact ⟨[['😀'], ['c'], ['d']], by decide +kernel, rfl⟩
  · have hinsert : beforeEmoji.insert [joiner] =
        some ⟨['😀', joiner, 'b', 'a'], ['c', 'd'], defaultCapacity⟩ := by decide +kernel
    obtain ⟨l'', hback, hiff, -⟩ := exists_backspace_insert hinsert
    refine ⟨_, l'', hinsert, hback, fun hrestored => ?_⟩
    exact absurd (hiff.mp hrestored).1 (by decide +kernel)

end Line

end Typeline
