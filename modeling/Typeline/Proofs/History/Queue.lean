import Mathlib.Data.List.Induction
import Typeline.Proofs.History.Saved

/-!
# Histories as queues

A history to which lines are added, and whose limit may be chosen anew at any time, is a queue that
forgets: it holds the newest of all lines that have ever been added, in their order, where a line
that repeats the one before it counts once. What is compared is only the newest entry, and what
makes room is only the oldest one, so the two do not meet. As there is always room for one entry,
the newest entry is the line that was added last, whether it was kept then or found to be there
already.

## Main definitions

* `HistoryCall`, `History.called` : adding lines and choosing limits.
* `History.addedLines`, `History.limits` : the lines that are added, and the limits that are chosen.
* `History.Holds` : what a history holds of the lines that have been added.

## Main results

* `History.Holds.add`, `History.Holds.setMaxLength` : one call.
* `History.entries_called` : any calls on a history that was empty.
-/

namespace Typeline

/-- What fills a history, and what limits it. -/
inductive HistoryCall where
  /-- A line is added. -/
  | add (line : Text)
  /-- The largest number of entries is chosen. -/
  | setMaxLength (n : Nat)
  deriving DecidableEq, Repr

namespace HistoryCall

/-- The line that is added. -/
def line? : HistoryCall → Option Text
  | .add line => some line
  | .setMaxLength _ => none

/-- The limit that is chosen. There is no limit of zero. -/
def limit? : HistoryCall → Option Nat
  | .add _ => none
  | .setMaxLength n => if n = 0 then none else some n

end HistoryCall

namespace History

variable {h : History} {lines : List Text}

/-- A history after a call. A call that is refused leaves it alone. -/
def call (h : History) : HistoryCall → History
  | .add line => (h.add line).getD h
  | .setMaxLength n => (h.setMaxLength n).toOption.getD h

/-- A history after calls, one after another. -/
def called (h : History) (calls : List HistoryCall) : History := calls.foldl call h

/-- The lines that are added, one after another. -/
def addedLines (calls : List HistoryCall) : List Text := calls.filterMap HistoryCall.line?

/-- The limits that are chosen, one after another. -/
def limits (calls : List HistoryCall) : List Nat := calls.filterMap HistoryCall.limit?

theorem called_concat (calls : List HistoryCall) (c : HistoryCall) :
    h.called (calls ++ [c]) = (h.called calls).call c := by
  rw [called, List.foldl_append]
  rfl

/-- One more line is left out if the line before it is the same. -/
theorem withoutRepeats_concat (previous : Option Text) (line : Text) :
    withoutRepeats previous (lines ++ [line]) =
      withoutRepeats previous lines ++ withoutRepeats (lines.getLast?.or previous) [line] := by
  induction lines generalizing previous with
  | nil => rfl
  | cons first lines ih =>
    have hlast : (first :: lines).getLast?.or previous = lines.getLast?.or (some first) := by
      rw [List.getLast?_cons]
      cases lines.getLast? <;> rfl
    rw [List.cons_append, withoutRepeats, withoutRepeats, ih, hlast, List.append_assoc]

/-! ### One call -/

/-- What a history holds of the lines that have been added: the newest of them, within its limit. -/
structure Holds (h : History) (lines : List Text) : Prop where
  maxLength_pos : 1 ≤ h.maxLength
  length_le : h.length ≤ h.maxLength
  entries_suffix : h.entries <:+ withoutRepeats none lines
  /-- The newest entry is the line that was added last. -/
  getLast?_entries : h.entries.getLast? = lines.getLast?

namespace Holds

theorem withoutRepeats_concat_eq (hh : h.Holds lines) (line : Text) :
    withoutRepeats none (lines ++ [line]) =
      withoutRepeats none lines ++ withoutRepeats h.entries.getLast? [line] := by
  rw [withoutRepeats_concat, hh.getLast?_entries, Option.or_none]

theorem add (hh : h.Holds lines) (line : Text) :
    ((h.add line).getD h).Holds (lines ++ [line]) := by
  have hadd := add_getD hh.length_le line
  have hlast := getLast?_add hh.maxLength_pos line
  have hfits : ((h.add line).getD h).length ≤ h.maxLength := by
    rw [hadd, length, List.rtake, List.length_drop]
    omega
  have hsuffix : ((h.add line).getD h).entries <:+ withoutRepeats none (lines ++ [line]) := by
    obtain ⟨older, holder⟩ := hh.entries_suffix
    rw [hadd, hh.withoutRepeats_concat_eq, ← holder, List.append_assoc]
    exact (List.drop_suffix _ _).trans (List.suffix_append older _)
  have hmax : ((h.add line).getD h).maxLength = h.maxLength := by rw [hadd]
  refine ⟨?_, ?_, hsuffix, ?_⟩
  · rw [hmax]
    exact hh.maxLength_pos
  · rw [hmax]
    exact hfits
  · rw [hlast, List.getLast?_concat]

theorem setMaxLength (hh : h.Holds lines) {n : Nat} {h' : History}
    (hset : h.setMaxLength n = .ok h') : h'.Holds lines := by
  obtain ⟨hpos, rfl⟩ := setMaxLength_eq_ok hset
  refine ⟨hpos, ?_, (List.drop_suffix _ _).trans hh.entries_suffix, ?_⟩
  · rw [length, List.length_drop]
    change _ ≤ n
    omega
  · -- At least one entry is kept, if there is one.
    rw [← hh.getLast?_entries]
    change (h.entries.drop (h.entries.length - n)).getLast? = _
    rw [List.getLast?_drop]
    split
    · next hnone =>
      have hlength : h.entries.length = 0 := by omega
      rw [List.eq_nil_of_length_eq_zero hlength, List.getLast?_nil]
    · rfl

theorem call (hh : h.Holds lines) (c : HistoryCall) :
    (h.call c).Holds (lines ++ c.line?.toList) := by
  cases c with
  | add line => exact hh.add line
  | setMaxLength n =>
    rw [History.call, HistoryCall.line?, Option.toList_none, List.append_nil]
    cases hset : h.setMaxLength n with
    | error e => exact hh
    | ok h' => exact hh.setMaxLength hset

/-- A line is added if and only if it differs from the one that was added last. -/
theorem isSome_add_iff (hh : h.Holds lines) (line : Text) :
    (h.add line).isSome = true ↔ lines.getLast? ≠ some line := by
  have hpos : h.maxLength ≠ 0 := Nat.ne_of_gt hh.maxLength_pos
  rw [History.add, hh.getLast?_entries]
  by_cases hlast : lines.getLast? = some line
  · rw [if_pos (Or.inr hlast)]
    exact iff_of_false (by simp) (not_not.mpr hlast)
  · rw [if_neg (by tauto)]
    exact iff_of_true rfl hlast

end Holds

theorem setMaxLength_zero (h : History) : h.setMaxLength 0 = .error (.historyLength 0) := if_pos rfl

private theorem maxLength_call (h : History) (c : HistoryCall) :
    (h.call c).maxLength = c.limit?.getD h.maxLength := by
  cases c with
  | add line =>
    rw [call]
    cases hadd : h.add line with
    | none => rfl
    | some h' =>
      obtain ⟨-, rfl⟩ := add_eq_some hadd
      rfl
  | setMaxLength n =>
    rw [call, HistoryCall.limit?]
    split
    · next hzero =>
      rw [hzero, setMaxLength_zero]
      rfl
    · next hpos =>
      rw [History.setMaxLength, if_neg hpos]
      rfl

/-! ### Any calls -/

theorem holds_called (hempty : h.entries = []) (hpos : 1 ≤ h.maxLength) (calls : List HistoryCall) :
    (h.called calls).Holds (addedLines calls) := by
  induction calls using List.reverseRecOn with
  | nil =>
    have hlength : h.length = 0 := by rw [length, hempty]; rfl
    exact ⟨hpos, by rw [called, List.foldl_nil, hlength]; exact Nat.zero_le _,
      by rw [called, List.foldl_nil, hempty]; exact List.nil_suffix,
      by rw [called, List.foldl_nil, hempty]; rfl⟩
  | append_singleton calls c ih =>
    have hlines : addedLines (calls ++ [c]) = addedLines calls ++ c.line?.toList := by
      rw [addedLines, addedLines, List.filterMap_append]
      cases c <;> rfl
    rw [called_concat, hlines]
    exact ih.call c

theorem maxLength_called (h : History) (calls : List HistoryCall) :
    (h.called calls).maxLength = (limits calls).getLast?.getD h.maxLength := by
  induction calls using List.reverseRecOn with
  | nil => rfl
  | append_singleton calls c ih =>
    have hlimits : limits (calls ++ [c]) = limits calls ++ c.limit?.toList := by
      rw [limits, limits, List.filterMap_append]
      cases hlimit : c.limit? <;> simp [hlimit]
    rw [called_concat, maxLength_call, ih, hlimits]
    cases c.limit? with
    | none => rw [Option.toList_none, List.append_nil, Option.getD_none]
    | some n => rw [Option.toList_some, List.getLast?_concat, Option.getD_some, Option.getD_some]

/-- While the limit stays as it is, the history holds as many of the newest lines as it allows. -/
theorem entries_called_of_steady (hempty : h.entries = []) (hpos : 1 ≤ h.maxLength)
    {calls : List HistoryCall} (hsteady : ∀ n ∈ limits calls, n = h.maxLength) :
    (h.called calls).entries = (withoutRepeats none (addedLines calls)).rtake h.maxLength := by
  induction calls using List.reverseRecOn with
  | nil =>
    rw [called, List.foldl_nil, hempty, addedLines, List.filterMap_nil, withoutRepeats,
      List.rtake_nil]
  | append_singleton calls c ih =>
    have hholds := holds_called hempty hpos calls
    have hbefore : ∀ n ∈ limits calls, n = h.maxLength := fun n hn => by
      refine hsteady n ?_
      rw [limits, List.filterMap_append]
      exact List.mem_append_left _ hn
    have hmax : (h.called calls).maxLength = h.maxLength := by
      rw [maxLength_called]
      cases hlast : (limits calls).getLast? with
      | none => rfl
      | some n => exact hbefore n (List.mem_of_getLast? hlast)
    rw [called_concat]
    cases c with
    | add line =>
      have hlines : addedLines (calls ++ [.add line]) = addedLines calls ++ [line] := by
        rw [addedLines, List.filterMap_append]
        rfl
      rw [hlines, hholds.withoutRepeats_concat_eq, call, add_getD hholds.length_le, ih hbefore,
        hmax]
      exact rtake_rtake_append _ _ _
    | setMaxLength n =>
      have hlines : addedLines (calls ++ [.setMaxLength n]) = addedLines calls := by
        rw [addedLines, List.filterMap_append]
        exact List.append_nil _
      rw [hlines, ← ih hbefore, call]
      by_cases hzero : n = 0
      · rw [hzero, setMaxLength_zero]
        rfl
      · -- The same limit once more: nothing is dropped.
        have hsame : n = h.maxLength := by
          refine hsteady n ?_
          rw [limits, List.filterMap_append, List.mem_append]
          exact Or.inr (by simp [HistoryCall.limit?, hzero])
        have hfits : (h.called calls).entries.length ≤ n := by
          rw [hsame, ← hmax]
          exact hholds.length_le
        rw [History.setMaxLength, if_neg hzero]
        change (h.called calls).entries.drop ((h.called calls).entries.length - n) = _
        rw [Nat.sub_eq_zero_of_le hfits, List.drop_zero]

/-- **Histories as queues.** After any calls on a history that was empty, its entries are the newest
of the lines that were added, in their order and without those that repeat the line before them, and
not more than the limit that was chosen last allows; they are as many as it allows if no other limit
was chosen. A line is added if and only if it differs from the line that was added last, and a limit
of zero is refused and changes nothing. -/
theorem entries_called (hempty : h.entries = []) (hpos : 1 ≤ h.maxLength)
    (calls : List HistoryCall) :
    (h.called calls).entries <:+ withoutRepeats none (addedLines calls) ∧
      ((h.called calls).maxLength = (limits calls).getLast?.getD h.maxLength ∧
        (h.called calls).length ≤ (h.called calls).maxLength) ∧
      ((∀ n ∈ limits calls, n = h.maxLength) →
        (h.called calls).entries =
          (withoutRepeats none (addedLines calls)).rtake h.maxLength) ∧
      (∀ line, ((h.called calls).add line).isSome = true ↔
        (addedLines calls).getLast? ≠ some line) ∧
      (h.called calls).setMaxLength 0 = .error (.historyLength 0) ∧
      (h.called calls).call (.setMaxLength 0) = h.called calls := by
  have hholds := holds_called hempty hpos calls
  refine ⟨hholds.entries_suffix, ⟨maxLength_called h calls, hholds.length_le⟩,
    entries_called_of_steady hempty hpos, hholds.isSome_add_iff, setMaxLength_zero _, ?_⟩
  rw [call, setMaxLength_zero]
  rfl

/-- A history with room for one entry. -/
def single : History := ⟨[], 1, false⟩

/-- Lines that repeat others, a limit that is refused, and one that makes room for another entry. -/
def narrowCalls : List HistoryCall :=
  [.add ['a'], .add ['a'], .add ['b'], .setMaxLength 0, .add ['a'], .setMaxLength 2, .add ['a'],
    .add []]

/-- Where there is room for one entry, a line is compared with the one before it all the same, and
an entry that has made room does not come back when there is room for two. -/
theorem entries_called_narrowCalls :
    ofMaxLength 1 = .ok single ∧ single.entries = [] ∧ 1 ≤ single.maxLength ∧
      (single.called (narrowCalls.take 4)).entries = [['b']] ∧
      (single.called narrowCalls).entries = [['a'], []] ∧
      [['a'], []] <:+ [['a'], ['b'], ['a'], []] ∧ (single.called narrowCalls).maxLength = 2 ∧
      ((single.called narrowCalls).add []).isSome = false := by
  have hcalls := entries_called (h := single) rfl (Nat.le_refl 1)
  obtain ⟨hsuffix, ⟨hlimit, -⟩, -, hadd, -⟩ := hcalls narrowCalls
  obtain ⟨-, -, hnewest, -⟩ := hcalls (narrowCalls.take 4)
  have hentries : (single.called narrowCalls).entries = [['a'], []] := by decide
  rw [hentries] at hsuffix
  refine ⟨rfl, rfl, Nat.le_refl 1, hnewest (by decide), hentries, hsuffix, hlimit, ?_⟩
  exact eq_false_of_ne_true fun hsome => (hadd []).mp hsome (by decide)

end History

end Typeline
