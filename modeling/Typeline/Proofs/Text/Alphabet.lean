import Mathlib.Data.List.Basic
import Mathlib.Data.Set.Defs
import Typeline.Proofs.Text.OwnClusters

/-!
# Alphabets of characters that never join

Whether a text may be cut at a position depends on the characters around it. In an alphabet no text
has a position that is not a border of clusters, so that in all that is spelled in it characters and
clusters are the same thing, wherever the text is cut and whatever is put together. The walks over
clusters are then steps over single characters.

## Main definitions

* `Alphabet` : a set of characters that never join.
* `Alphabet.Spells` : a text is spelled in an alphabet.
* `Alphabet.ordinary` : the alphabet of the characters that Unicode gives no part in a cluster.

## Main results

* `Alphabet.Spells.ownClusters` : the clusters of a text that is spelled in an alphabet.
* `Alphabet.forward_cons`, `Alphabet.backward_cons` : the walks over clusters.
-/

namespace Typeline

/-- A set of characters that never join: in no text of them is there a position inside of a
cluster. -/
structure Alphabet where
  /-- The characters. -/
  chars : Set Char
  /-- Every position in a text of them lies between two clusters. -/
  isBoundary_of_mem : ∀ s t : Text, (∀ c ∈ s ++ t, c ∈ chars) → isBoundary s.reverse t = true

namespace Alphabet

instance : Membership Char Alphabet := ⟨fun A c => c ∈ A.chars⟩

variable {A : Alphabet}

/-- All characters of a text belong to an alphabet. -/
def Spells (A : Alphabet) (t : Text) : Prop := ∀ c ∈ t, c ∈ A

-- Named, since another instance goes through all characters there are.
instance [DecidablePred (· ∈ A)] (t : Text) : Decidable (A.Spells t) :=
  List.decidableBAll (· ∈ A) t

@[simp] theorem spells_nil : A.Spells [] := fun _ hc => absurd hc List.not_mem_nil

@[simp] theorem spells_cons {c : Char} {t : Text} : A.Spells (c :: t) ↔ c ∈ A ∧ A.Spells t :=
  List.forall_mem_cons

@[simp] theorem spells_append {s t : Text} : A.Spells (s ++ t) ↔ A.Spells s ∧ A.Spells t :=
  List.forall_mem_append

@[simp] theorem spells_reverse {t : Text} : A.Spells t.reverse ↔ A.Spells t := by
  simp only [Spells, List.mem_reverse]

theorem Spells.of_subset {s t : Text} (h : A.Spells t) (hs : s ⊆ t) : A.Spells s :=
  fun c hc => h c (hs hc)

/-- A text that is spelled in an alphabet is empty or has a last character in it. -/
theorem Spells.eq_nil_or_concat {t : Text} (h : A.Spells t) :
    t = [] ∨ ∃ s c, t = s ++ [c] ∧ A.Spells s ∧ c ∈ A := by
  rcases List.eq_nil_or_concat' t with rfl | ⟨s, c, rfl⟩
  · exact Or.inl rfl
  · rw [spells_append, spells_cons] at h
    exact Or.inr ⟨s, c, rfl, h.1, h.2.1⟩

/-- Every position is a border. -/
theorem isBoundary_of_spells {before after : List Char} (hbefore : A.Spells before)
    (hafter : A.Spells after) : isBoundary before after = true := by
  have hall := A.isBoundary_of_mem before.reverse after
    (spells_append.mpr ⟨spells_reverse.mpr hbefore, hafter⟩)
  rwa [List.reverse_reverse] at hall

theorem Spells.ownClusters {t : Text} (h : A.Spells t) : OwnClusters t := by
  rw [ownClusters_iff]
  rintro s u rfl
  exact A.isBoundary_of_mem s u h

/-! ### The walks over clusters -/

section Walks

variable {c : Char} {before after : List Char} (hc : c ∈ A) (hbefore : A.Spells before)
  (hafter : A.Spells after)

include hc hbefore hafter

theorem forward_cons : forward before (c :: after) = (c :: before, after) := by
  rw [forward, if_pos (isBoundary_of_spells (spells_cons.mpr ⟨hc, hbefore⟩) hafter)]

theorem backward_cons : backward (c :: before) after = (before, c :: after) := by
  rw [backward, if_pos (isBoundary_of_spells hbefore (spells_cons.mpr ⟨hc, hafter⟩))]

end Walks

/-! ### The ordinary characters -/

private theorem breakClass_joiner : breakClass joiner = .extend := by decide +kernel

/-- Characters that take room, of the class that joins nothing. -/
def ordinary : Alphabet where
  chars := {c | breakClass c = .other ∧ isZeroWidth c = false}
  isBoundary_of_mem s t h := by
    cases hs : s.reverse with
    | nil => exact isBoundary_nil_left t
    | cons left before =>
      cases t with
      | nil => exact isBoundary_nil_right _
      | cons right after =>
        have hleft := (h left (List.mem_append_left _
          (List.mem_reverse.mp (hs ▸ List.mem_cons_self)))).1
        obtain ⟨hright, hroom⟩ := h right (List.mem_append_right _ List.mem_cons_self)
        have hjoiner : left ≠ joiner := by
          rintro rfl
          rw [breakClass_joiner] at hleft
          exact BreakClass.noConfusion hleft
        rw [isBoundary, hleft, hright, hroom, bne_iff_ne.mpr hjoiner]
        rfl

instance : DecidablePred (· ∈ ordinary) := fun c =>
  inferInstanceAs (Decidable (breakClass c = .other ∧ isZeroWidth c = false))

end Alphabet

end Typeline
