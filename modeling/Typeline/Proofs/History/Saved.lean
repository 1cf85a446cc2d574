import Mathlib.Data.List.DropRight
import Typeline.History.File
import Typeline.Proofs.History.Limits
import Typeline.Proofs.Text.Encoding

/-!
# Histories read back from files

A history that is saved and loaded into another one adds its entries to those that are there, as if
they were entered again. So an entry is left out if it repeats the one before it, and when all have
been added the newest ones are kept, as many as there may be. It makes no difference that the
oldest entries make room one by one while lines are still being compared: a line is compared with
the newest entry, which is the line before it, whatever became of the older ones.

Entries with a line feed or a carriage return do not come back whole, since a file has one entry on
each line.

## Main definitions

* `History.withoutRepeats` : lines without those that equal the line before them.

## Main results

* `History.addAll_eq` : the history after adding lines, all at once.
* `History.addBytes_fileText` : the entries on the lines of a saved history.
* `History.load_save` : loading what has been saved.
-/

namespace Typeline

namespace History

variable {g h : History}

/-! ### The newest entries -/

theorem rtake_of_length_le {l : List Text} {n : Nat} (hl : l.length ≤ n) : l.rtake n = l := by
  rw [List.rtake, Nat.sub_eq_zero_of_le hl, List.drop_zero]

/-- Whether the newest lines are kept once more in between makes no difference. -/
theorem rtake_rtake_append (l m : List Text) (n : Nat) :
    (l.rtake n ++ m).rtake n = (l ++ m).rtake n := by
  have hdrop : l.rtake n ++ m = (l ++ m).drop (l.length - n) :=
    (List.drop_append_of_le_length (Nat.sub_le _ _)).symm
  rw [hdrop, List.rtake, List.drop_drop, List.rtake, List.length_drop, List.length_append]
  congr 1
  omega

/-! ### Adding lines -/

/-- Lines without those that equal the line before them. Before the first one stands `previous`, or
nothing. -/
def withoutRepeats : (previous : Option Text) → List Text → List Text
  | _, [] => []
  | previous, line :: lines =>
    (if previous = some line then [] else [line]) ++ withoutRepeats (some line) lines

/-- Where no two lines in a row are equal, none is left out. -/
theorem withoutRepeats_of_isChain {line : Text} {lines : List Text}
    (hlines : (line :: lines).IsChain (· ≠ ·)) : withoutRepeats (some line) lines = lines := by
  induction lines generalizing line with
  | nil => rfl
  | cons next lines ih =>
    obtain ⟨hnext, hrest⟩ := List.isChain_cons_cons.mp hlines
    rw [withoutRepeats, if_neg fun heq => hnext (Option.some.inj heq), ih hrest]
    rfl

theorem NoRepeats.withoutRepeats_eq (hn : h.NoRepeats) :
    withoutRepeats none h.entries = h.entries := by
  rw [NoRepeats] at hn
  cases hentries : h.entries with
  | nil => rfl
  | cons line lines =>
    rw [hentries] at hn
    rw [withoutRepeats, if_neg (by simp), withoutRepeats_of_isChain hn]
    rfl

/-- A line is added behind the entries, and the newest ones are kept. -/
theorem add_getD (hle : h.length ≤ h.maxLength) (line : Text) : (h.add line).getD h = { h with
      entries := (h.entries ++ withoutRepeats h.entries.getLast? [line]).rtake h.maxLength } := by
  have hle : h.entries.length ≤ h.maxLength := hle
  rw [add, withoutRepeats, withoutRepeats, List.append_nil]
  by_cases hlast : h.entries.getLast? = some line
  · rw [if_pos (Or.inr hlast), if_pos hlast, List.append_nil, rtake_of_length_le hle]
    rfl
  · rw [if_neg hlast]
    by_cases hmax : h.maxLength = 0
    · have hnone : h.entries = [] := List.eq_nil_of_length_eq_zero (by omega)
      rw [if_pos (Or.inl hmax), hmax, List.rtake_zero, ← hnone, ← hmax]
      rfl
    · rw [if_neg (by tauto), Option.getD_some, withRoom, List.rtake, List.length_append,
        List.length_singleton]
      congr 1
      split
      · rw [show h.entries.length + 1 - h.maxLength = 1 by omega,
          List.drop_append_of_le_length (by omega)]
      · rw [show h.entries.length + 1 - h.maxLength = 0 by omega, List.drop_zero]

/-- Whether a line was added or not, it is the newest entry then. -/
theorem getLast?_add (hpos : 0 < h.maxLength) (line : Text) :
    ((h.add line).getD h).entries.getLast? = some line := by
  cases hadd : h.add line with
  | some h' =>
    obtain ⟨-, rfl⟩ := add_eq_some hadd
    exact List.getLast?_concat
  | none =>
    by_contra hlast
    rw [add, if_neg (by rw [not_or]; exact ⟨Nat.ne_of_gt hpos, hlast⟩)] at hadd
    exact absurd hadd (by simp)

/-- **Adding lines.** Those that repeat the line before them are left out, and of all entries the
newest ones are kept. -/
theorem addAll_eq (hle : h.length ≤ h.maxLength) (lines : List Text) : h.addAll lines = { h with
      entries := (h.entries ++ withoutRepeats h.entries.getLast? lines).rtake h.maxLength } := by
  induction lines generalizing h with
  | nil => rw [withoutRepeats, List.append_nil, rtake_of_length_le hle, addAll, List.foldl_nil]
  | cons line lines ih =>
    have hadd := add_getD hle line
    have hmax : ((h.add line).getD h).maxLength = h.maxLength := by rw [hadd]
    have hslot : ((h.add line).getD h).hasLiveSlot = h.hasLiveSlot := by rw [hadd]
    have hfits : ((h.add line).getD h).length ≤ ((h.add line).getD h).maxLength := by
      rw [hadd, length, List.rtake, List.length_drop]
      change _ ≤ h.maxLength
      omega
    have hentries : (((h.add line).getD h).entries ++ withoutRepeats
          ((h.add line).getD h).entries.getLast? lines).rtake h.maxLength =
        (h.entries ++ withoutRepeats h.entries.getLast? (line :: lines)).rtake h.maxLength := by
      by_cases hzero : h.maxLength = 0
      · rw [hzero, List.rtake_zero, List.rtake_zero]
      · rw [getLast?_add (Nat.pos_of_ne_zero hzero), hadd, rtake_rtake_append, List.append_assoc]
        simp only [withoutRepeats, List.append_nil]
    rw [addAll, List.foldl_cons, ← addAll, ih hfits, hmax, hslot, hentries]

/-! ### The lines of a file -/

private theorem fileLines_line {line : List UInt8} (hline : 0x0A ∉ line) (rest : List UInt8) :
    fileLines (line ++ 0x0A :: rest) = line :: fileLines rest := by
  induction line with
  | nil => rfl
  | cons b line ih =>
    rw [List.mem_cons, not_or] at hline
    rw [List.cons_append, fileLines, if_neg fun hb => hline.1 hb.symm, ih hline.2]

/-- An entry without line ends comes back from its line. -/
theorem entryOfLine_encode {entry : Text} (hreturn : '\r' ∉ entry) :
    entryOfLine (Utf8.encode entry) = entry := by
  have hbytes : ∀ b ∈ Utf8.encode entry, decide (b ≠ 0x0D) = true := by
    intro b hb
    rw [decide_eq_true_eq]
    rintro rfl
    exact Utf8.notMem_encode (c := '\r') (by decide) hreturn hb
  rw [entryOfLine, List.takeWhile_eq_self_iff.mpr hbytes, Utf8.lossy_encode]

/-- The lines of a saved history are its entries. -/
theorem fileLines_fileText (hfeed : ∀ entry ∈ h.entries, '\n' ∉ entry) :
    fileLines (Utf8.encode h.fileText) = h.entries.map Utf8.encode := by
  rw [fileText]
  generalize h.entries = entries at hfeed
  induction entries with
  | nil => rfl
  | cons entry entries ih =>
    have hentry : 0x0A ∉ Utf8.encode entry :=
      Utf8.notMem_encode (c := '\n') (by decide) (hfeed entry List.mem_cons_self)
    rw [List.flatMap_cons, Utf8.encode_append, Utf8.encode_append, List.append_assoc]
    refine (fileLines_line hentry (Utf8.encode (entries.flatMap fun e => e ++ ['\n']))).trans ?_
    rw [ih fun e he => hfeed e (List.mem_cons_of_mem _ he), List.map_cons]

theorem addBytes_fileText
    (hentries : ∀ entry ∈ h.entries, '\n' ∉ entry ∧ '\r' ∉ entry) (g : History) :
    g.addBytes (Utf8.encode h.fileText) = g.addAll h.entries := by
  have hback : ∀ entry ∈ h.entries, (entryOfLine ∘ Utf8.encode) entry = id entry :=
    fun entry hentry => entryOfLine_encode (hentries entry hentry).2
  rw [addBytes, fileLines_fileText fun entry hentry => (hentries entry hentry).1, List.map_map,
    List.map_congr_left hback, List.map_id]

/-! ### Saving and loading -/

/-- A file that has been written is read back. -/
theorem read_of_write {folder folder' : Folder} {name : Text} {bytes : List UInt8} {mode : Nat}
    (hwrite : folder.write name bytes mode = .ok folder') : folder'.read name = .ok bytes := by
  rw [Folder.write] at hwrite
  split at hwrite
  · exact absurd hwrite (by simp)
  · next hslash =>
    have hfound : Folder.find? ((name, .file bytes mode) :: folder) name =
        some (.file bytes mode) := by
      rw [Folder.find?, if_neg hslash, List.lookup_cons_self]
    split at hwrite
    · exact absurd hwrite (by simp)
    · rw [← Except.ok.inj hwrite, Folder.read, hfound]

/-- **Loading what has been saved.** The entries are added to those of the history into which they
are loaded, except for those that equal the entry before them, and the newest ones are kept. So a
history without repeats comes back as it was in an empty one that has room for it. -/
theorem load_save {folder folder' : Folder} {name : Text}
    (hentries : ∀ entry ∈ h.entries, '\n' ∉ entry ∧ '\r' ∉ entry) (hle : g.length ≤ g.maxLength)
    (hsave : h.save folder name = .ok folder') :
    g.load folder' name = .ok { g with
      entries := (g.entries ++ withoutRepeats g.entries.getLast? h.entries).rtake g.maxLength } ∧
    (g.entries = [] → h.length ≤ g.maxLength → h.NoRepeats →
      g.load folder' name = .ok { g with entries := h.entries }) := by
  have hload : g.load folder' name = .ok { g with
      entries :=
        (g.entries ++ withoutRepeats g.entries.getLast? h.entries).rtake g.maxLength } := by
    rw [save] at hsave
    cases hwrite : folder.write name (Utf8.encode h.fileText) fileMode with
    | error e =>
      rw [hwrite] at hsave
      exact absurd hsave (by simp [Except.mapError])
    | ok written =>
      rw [hwrite] at hsave
      rw [← Except.ok.inj hsave, load, read_of_write hwrite, ← addAll_eq hle h.entries,
        ← addBytes_fileText hentries]
      rfl
  refine ⟨hload, fun hempty hroom hn => ?_⟩
  rw [hload, hempty, List.getLast?_nil, hn.withoutRepeats_eq, List.nil_append,
    rtake_of_length_le hroom]

/-- A history in which an entry was written twice in a row. -/
def repeating : History := ⟨[['a'], ['a'], [], ['é']], 4, false⟩

/-- A history with room for one more entry, in which that entry is the newest one. -/
def withRepeated : History := ⟨[['b'], ['a']], 3, false⟩

/-- Neither of the two is added again, and the oldest entry makes room. -/
theorem load_save_repeating : ∃ folder, repeating.save [] ['h'] = .ok folder ∧
    (∀ entry ∈ repeating.entries, '\n' ∉ entry ∧ '\r' ∉ entry) ∧
    withRepeated.length ≤ withRepeated.maxLength ∧
    withRepeated.load folder ['h'] = .ok { withRepeated with entries := [['a'], [], ['é']] } := by
  have hsave : repeating.save [] ['h'] =
      .ok [(['h'], .file (Utf8.encode repeating.fileText) fileMode)] := rfl
  have hentries : ∀ entry ∈ repeating.entries, '\n' ∉ entry ∧ '\r' ∉ entry := by decide
  have hle : withRepeated.length ≤ withRepeated.maxLength := by decide
  exact ⟨_, hsave, hentries, hle, (load_save hentries hle hsave).1⟩

end History

end Typeline
