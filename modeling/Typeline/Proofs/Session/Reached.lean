import Mathlib.Data.List.Induction
import Typeline.History.File
import Typeline.Proofs.History.Limits
import Typeline.Proofs.Session.Afterwards

/-!
# Histories that can be reached

A history changes when a line is added, when the number of its entries is limited, when a file is
loaded, and through the sessions of an editor. Through all of that it keeps within its limit, and
outside of sessions it has no live slot.

Whether two equal entries can stand one after the other is another matter. A line that is added is
compared with the newest entry, and so is each line of a file; dropping the oldest entries brings no
others together. But a session writes to entries as they stand, without comparing them with those
next to them. `Session.Repeats` says when this makes two of them equal, and that is the only way.

## Main definitions

* `SessionRun` : a session from its start to its end.
* `HistoryOperation`, `History.after` : what may happen to a history.

## Main results

* `Session.noRepeats_finish_iff`, `Session.not_repeats_of_quiet` : when a session repeats an entry.
* `History.bounded_and_noRepeats_iff` : the histories that can be reached.
-/

namespace Typeline

namespace Session

variable {s : Session} {calls : Nat → SessionCall} {n : Nat}

/-- A session makes two entries in a row equal by what it writes to one of them or to both. -/
def Repeats (s : Session) (calls : Nat → SessionCall) (n : Nat) : Prop :=
  ∃ p entry entry', s.editor.history.endLiveSlot.entries[p]? = some entry ∧
    s.editor.history.endLiveSlot.entries[p + 1]? = some entry' ∧
    ((s.lastShown calls (Overwrites p) n).isSome = true ∨
      (s.lastShown calls (Overwrites (p + 1)) n).isSome = true) ∧
    (s.lastShown calls (Overwrites p) n).getD entry =
      (s.lastShown calls (Overwrites (p + 1)) n).getD entry'

/-- **When a session repeats an entry.** If no two of the entries that it found were equal, two of
those that it leaves are equal only through what it has written. -/
theorem noRepeats_finish_iff (hfinished : s.finished = false)
    (hbefore : s.editor.history.endLiveSlot.NoRepeats) :
    (s.driven calls n).finish.editor.history.NoRepeats ↔ ¬s.Repeats calls n := by
  rw [History.noRepeats_iff_getElem?]
  constructor
  · rintro hafter ⟨p, entry, entry', hentry, hentry', -, hequal⟩
    refine hafter p ((s.lastShown calls (Overwrites p) n).getD entry) ?_ ?_
    · rw [getElem?_finish_driven hfinished, hentry]
      rfl
    · rw [getElem?_finish_driven hfinished, hentry', hequal]
      rfl
  · intro hwritten p t hp hnext
    rw [getElem?_finish_driven hfinished] at hp hnext
    obtain ⟨entry, hentry, rfl⟩ := Option.map_eq_some_iff.mp hp
    obtain ⟨entry', hentry', hequal⟩ := Option.map_eq_some_iff.mp hnext
    refine hwritten ⟨p, entry, entry', hentry, hentry', ?_, hequal.symm⟩
    by_contra hneither
    rw [not_or, Option.not_isSome_iff_eq_none, Option.not_isSome_iff_eq_none] at hneither
    rw [hneither.1, hneither.2] at hequal
    obtain rfl : entry' = entry := hequal
    exact History.noRepeats_iff_getElem?.mp hbefore p entry' hentry hentry'

/-- So a session without browsing repeats no entry. -/
theorem not_repeats_of_quiet (hquiet : ∀ m < n, (s.driven calls m).direction? (calls m) = none) :
    ¬s.Repeats calls n := by
  rintro ⟨p, -, -, -, -, hwritten, -⟩
  have hnone (place : Nat) : s.lastShown calls (Overwrites place) n = none :=
    lastShown_eq_none_iff.mpr fun m hm => not_overwrites_of_direction? (hquiet m hm) place
  rw [hnone, hnone] at hwritten
  exact absurd hwritten (by simp)

end Session

/-- A session from its start to its end. Only the history on which it starts is left open. -/
structure SessionRun where
  /-- How the line is edited. -/
  config : EditorConfig
  /-- How the terminal is treated. -/
  terminal : TerminalSettings
  /-- The source of completions. -/
  completer : Option Completer
  /-- The source of hints. -/
  hinter : Option Hinter
  /-- The mode of the terminal. -/
  mode : RawMode
  /-- The keyboard. -/
  input : Input
  /-- The terminal. -/
  output : Output
  /-- What stands before the line. -/
  prompt : Text
  /-- The calls on the session. -/
  calls : Nat → SessionCall
  /-- How many calls are made before the session is finished. -/
  count : Nat

namespace SessionRun

/-- The start of the session on a history. -/
def start (run : SessionRun) (h : History) : Except EditError Session :=
  Session.start ⟨run.config, run.terminal, run.completer, run.hinter, h⟩ run.mode run.input
    run.output run.prompt

/-- The history after the session. A session that does not start leaves it alone. -/
def after (run : SessionRun) (h : History) : History :=
  match run.start h with
  | .error _ => h
  | .ok s => (s.driven run.calls run.count).finish.editor.history

/-- The session makes two entries in a row equal. -/
def Repeats (run : SessionRun) (h : History) : Prop :=
  ∃ s, run.start h = .ok s ∧ s.Repeats run.calls run.count

variable {run : SessionRun} {h : History}

private theorem bounded_after (hb : h.Bounded) : (run.after h).Bounded := by
  rw [after]
  split
  · exact hb
  · next s hstart =>
    obtain ⟨hlength, hmax, hslot⟩ :=
      Session.finish_driven_keeps (Session.finished_start hstart) run.calls run.count
    rw [Session.endLiveSlot_start hstart hb.hasLiveSlot_eq] at hlength hmax
    refine ⟨hmax ▸ hb.maxLength_pos, ?_, hslot⟩
    rw [hlength, hmax]
    have hle : h.entries.length ≤ h.maxLength := hb.length_le
    change (if _ then h.entries.drop 1 else h.entries).length ≤ h.maxLength
    split
    · rw [List.length_drop]
      omega
    · exact hle

private theorem noRepeats_after_iff (hb : h.Bounded) (hn : h.NoRepeats) :
    (run.after h).NoRepeats ↔ ¬run.Repeats h := by
  cases hstart : run.start h with
  | error e =>
    rw [after, hstart]
    refine iff_of_true hn ?_
    rintro ⟨s, hok, -⟩
    exact absurd (hstart.symm.trans hok) (by simp)
  | ok s =>
    have hbefore : s.editor.history.endLiveSlot.NoRepeats := by
      rw [Session.endLiveSlot_start hstart hb.hasLiveSlot_eq]
      change (if _ then h.entries.drop 1 else h.entries).IsChain (· ≠ ·)
      split
      · exact hn.drop 1
      · exact hn
    rw [after, hstart]
    refine (Session.noRepeats_finish_iff (Session.finished_start hstart) hbefore).trans
      (not_congr ⟨fun hs => ⟨s, hstart, hs⟩, ?_⟩)
    rintro ⟨s', hok, hs⟩
    obtain rfl := Except.ok.inj (hstart.symm.trans hok)
    exact hs

end SessionRun

/-- What may happen to a history. -/
inductive HistoryOperation where
  /-- A line is added. -/
  | add (line : Text)
  /-- The largest number of entries is chosen. -/
  | setMaxLength (n : Nat)
  /-- The entries of a file are added. -/
  | load (folder : Folder) (name : Text)
  /-- A line is edited. -/
  | session (run : SessionRun)

namespace History

/-- A history after an operation. An operation that fails leaves it alone. -/
def apply (h : History) : HistoryOperation → History
  | .add line => (h.add line).getD h
  | .setMaxLength n => (h.setMaxLength n).toOption.getD h
  | .load folder name => (h.load folder name).toOption.getD h
  | .session run => run.after h

/-- A history after operations, one after another. -/
def after (h : History) (ops : List HistoryOperation) : History := ops.foldl apply h

/-- A history at its beginning, with the usual limit or with a chosen one. -/
def IsNew (h : History) : Prop := h = .empty ∨ ∃ n, ofMaxLength n = .ok h

variable {h : History}

private theorem bounded_and_noRepeats_of_isNew (hnew : h.IsNew) : h.Bounded ∧ h.NoRepeats := by
  rcases hnew with rfl | ⟨n, hset⟩
  · exact ⟨⟨by decide, by decide, rfl⟩, noRepeats_empty⟩
  · exact ⟨bounded_setMaxLength rfl hset, noRepeats_setMaxLength noRepeats_empty hset⟩

/-- **Every operation keeps a history within its limit.** -/
theorem bounded_apply (hb : h.Bounded) (op : HistoryOperation) : (h.apply op).Bounded := by
  cases op with
  | add line => exact bounded_add hb line
  | setMaxLength n =>
    rw [apply]
    cases hset : h.setMaxLength n with
    | error e => exact hb
    | ok h' => exact bounded_setMaxLength hb.hasLiveSlot_eq hset
  | load folder name =>
    rw [apply, load]
    cases folder.read name with
    | error e => exact hb
    | ok bytes => exact bounded_addAll hb _
  | session run => exact SessionRun.bounded_after hb

/-- **Only a session repeats an entry.** -/
theorem noRepeats_apply_iff (hb : h.Bounded) (hn : h.NoRepeats) (op : HistoryOperation) :
    (h.apply op).NoRepeats ↔ ∀ run, op = .session run → ¬run.Repeats h := by
  cases op with
  | add line => exact iff_of_true (noRepeats_add hn line) fun run hop => absurd hop (by simp)
  | setMaxLength n =>
    refine iff_of_true ?_ fun run hop => absurd hop (by simp)
    rw [apply]
    cases hset : h.setMaxLength n with
    | error e => exact hn
    | ok h' => exact noRepeats_setMaxLength hn hset
  | load folder name =>
    refine iff_of_true ?_ fun run hop => absurd hop (by simp)
    rw [apply, load]
    cases folder.read name with
    | error e => exact hn
    | ok bytes => exact noRepeats_addAll hn _
  | session run =>
    refine (SessionRun.noRepeats_after_iff hb hn).trans ⟨?_, fun hall => hall run rfl⟩
    rintro hrun run' hop
    obtain rfl := HistoryOperation.session.inj hop
    exact hrun

private theorem after_concat (ops : List HistoryOperation) (op : HistoryOperation) :
    h.after (ops ++ [op]) = (h.after ops).apply op := by
  rw [after, List.foldl_append]
  rfl

private theorem bounded_after (hb : h.Bounded) (ops : List HistoryOperation) :
    (h.after ops).Bounded := by
  induction ops generalizing h with
  | nil => exact hb
  | cons op ops ih => exact ih (bounded_apply hb op)

/-- **The histories that can be reached.** From a new history, all operations keep within the limit
and leave no live slot. There are no two equal entries in a row at any time, if and only if none of
the sessions wrote to an entry what stands next to it. -/
theorem bounded_and_noRepeats_iff (hnew : h.IsNew) (ops : List HistoryOperation) :
    (h.after ops).Bounded ∧
      ((∀ earlier, earlier <+: ops → (h.after earlier).NoRepeats) ↔
        ∀ earlier run, earlier ++ [.session run] <+: ops → ¬run.Repeats (h.after earlier)) := by
  obtain ⟨hb, hn⟩ := bounded_and_noRepeats_of_isNew hnew
  refine ⟨bounded_after hb ops, ?_⟩
  induction ops using List.reverseRecOn with
  | nil =>
    refine iff_of_true (fun earlier hearlier => ?_) fun earlier run hearlier => ?_
    · rw [List.prefix_nil.mp hearlier]
      exact hn
    · exact absurd (List.prefix_nil.mp hearlier) (by simp)
  | append_singleton ops op ih =>
    have hstep (hbefore : (h.after ops).NoRepeats) :=
      noRepeats_apply_iff (bounded_after hb ops) hbefore op
    rw [← after_concat] at hstep
    constructor
    · intro hall earlier run hearlier
      rcases List.prefix_concat_iff.mp hearlier with heq | hshorter
      · obtain ⟨rfl, hop⟩ := List.append_inj' heq rfl
        obtain rfl := List.singleton_inj.mp hop
        exact (hstep (hall earlier (List.prefix_append _ _))).mp (hall _ List.prefix_rfl) run rfl
      · refine ih.mp (fun earlier hearlier => ?_) earlier run hshorter
        exact hall earlier (hearlier.trans (List.prefix_append _ _))
    · intro hall earlier hearlier
      have hbefore := ih.mpr fun earlier run hearlier =>
        hall earlier run (hearlier.trans (List.prefix_append _ _))
      rcases List.prefix_concat_iff.mp hearlier with rfl | hshorter
      · refine (hstep (hbefore ops List.prefix_rfl)).mpr fun run hop => hall ops run ?_
        subst hop
        exact List.prefix_rfl
      · exact hbefore earlier hshorter

/-- A session in which the newest entry is recalled, emptied, and left again. -/
def emptyingRun : SessionRun where
  config := .default
  terminal := .ofColumns 80
  completer := none
  hinter := none
  mode := .ofPipe
  input := .ofBytes [0x10, 0x15, 0x0E, 0x0D] true false none
  output := .fresh none
  prompt := ['>', ' ']
  calls := fun _ => .feed
  count := 4

/-- The session after an empty line and another one have been added. -/
def emptyingOperations : List HistoryOperation := [.add [], .add ['b'], .session emptyingRun]

/-- In the end there are two empty entries in a row, so one of the sessions wrote one of them. -/
theorem bounded_and_noRepeats_iff_emptyingOperations :
    (empty.after emptyingOperations).Bounded ∧
      ∃ earlier run, earlier ++ [.session run] <+: emptyingOperations ∧
        run.Repeats (empty.after earlier) := by
  obtain ⟨hb, hiff⟩ := bounded_and_noRepeats_iff (.inl rfl) emptyingOperations
  refine ⟨hb, ?_⟩
  by_contra hnone
  have hall := hiff.mpr fun earlier run hearlier hrun => hnone ⟨earlier, run, hearlier, hrun⟩
  exact absurd (hall emptyingOperations List.prefix_rfl) (by decide +kernel)

/-- So there are histories with two equal entries in a row. -/
theorem exists_not_noRepeats : ¬∀ (h : History) (ops : List HistoryOperation),
    h.IsNew → (h.after ops).NoRepeats :=
  fun hall => absurd (hall .empty emptyingOperations (.inl rfl)) (by decide +kernel)

end History

end Typeline
