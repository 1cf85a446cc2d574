import Mathlib.Data.List.Infix
import Mathlib.Tactic.SplitIfs
import Typeline.Proofs.Key.Characters

/-!
# Keys from input with pauses

The bytes of a key may come at once or with pauses between them, in which a read finds nothing yet.
A decoder that meets a pause keeps the bytes of a character under way and goes on with them at the
next reading, so a pause makes no difference to a character. It does make a difference to an escape
sequence, which ends where its bytes do not follow each other at once. Therefore reading a key from
a queue with pauses is reading a key from the queue without them, or it is a reading that ends at a
pause and changes nothing for the next one; provided that no pause stands in an escape sequence.

## Main definitions

* `bytesIn` : the bytes in a queue.
* `dropPauses`, `Paused` : a queue without its pauses, and a queue of bytes and pauses.
* `KeyDecoder.Unbroken` : no pause stands in the escape sequence that is read from a queue.
* `KeyDecoder.kept` : how much a decoder keeps from one key to the next.

## Main results

* `KeyDecoder.readEscape_dropPauses` : reading an escape sequence in which there is no pause.
* `KeyDecoder.readQueue_dropPauses` : reading a key.
* `KeyDecoder.read_withoutPauses` : reading a key from an input.
* `KeyDecoder.kept_read` : a key takes something from the input or from what is kept.
-/

namespace Typeline

/-- The byte that has been read, if it was one. -/
def Reading.byte? : Reading → Option UInt8
  | .byte b => some b
  | .silent _ => none

/-- The bytes in a queue. -/
def bytesIn (queue : List Reading) : List UInt8 := queue.filterMap Reading.byte?

theorem bytesIn_map_byte (bytes : List UInt8) : bytesIn (bytes.map .byte) = bytes := by
  rw [bytesIn, List.filterMap_map]
  exact List.filterMap_some

theorem byte_mem_of_mem_bytesIn {queue : List Reading} {b : UInt8} (h : b ∈ bytesIn queue) :
    .byte b ∈ queue := by
  obtain ⟨r, hr, hbyte⟩ := List.mem_filterMap.mp h
  cases r with
  | byte b' => exact Option.some.inj hbyte ▸ hr
  | silent s => exact absurd hbyte (Option.some_ne_none b).symm

/-- A queue without the pauses in it. -/
def dropPauses (queue : List Reading) : List Reading := queue.filter (· ≠ .silent .notReady)

/-- A queue of bytes and pauses. -/
def Paused (queue : List Reading) : Prop := ∀ s, .silent s ∈ queue → s = .notReady

/-- An input without the pauses in it. -/
def Input.withoutPauses (input : Input) : Input := { input with queue := dropPauses input.queue }

section Queue

variable (queue : List Reading)

@[simp] theorem dropPauses_nil : dropPauses [] = [] := rfl

@[simp] theorem dropPauses_pause :
    dropPauses (.silent .notReady :: queue) = dropPauses queue := rfl

@[simp] theorem dropPauses_byte (b : UInt8) :
    dropPauses (.byte b :: queue) = .byte b :: dropPauses queue := rfl

end Queue

namespace Paused

variable {queue later : List Reading}

theorem of_suffix (h : Paused queue) (hlater : later <:+ queue) : Paused later :=
  fun s hs => h s (hlater.subset hs)

theorem byte_cons (h : Paused queue) (b : UInt8) : Paused (.byte b :: queue) := by
  intro s hs
  rcases List.mem_cons.mp hs with heq | hs
  · exact absurd heq (by simp)
  · exact h s hs

theorem dropPauses (h : Paused queue) : Paused (dropPauses queue) :=
  fun s hs => h s (List.mem_of_mem_filter hs)

/-- What comes first in a queue of bytes and pauses. -/
theorem cases_cons {r : Reading} (h : Paused (r :: queue)) :
    r = .silent .notReady ∨ ∃ b, r = .byte b := by
  cases r with
  | byte b => exact Or.inr ⟨b, rfl⟩
  | silent s => exact Or.inl (congrArg Reading.silent (h s List.mem_cons_self))

/-- Without its pauses such a queue is empty or starts with a byte. -/
theorem dropPauses_eq (h : Paused queue) : Typeline.dropPauses queue = [] ∨
    ∃ b rest, Typeline.dropPauses queue = .byte b :: rest := by
  cases hrest : Typeline.dropPauses queue with
  | nil => exact Or.inl rfl
  | cons r rest =>
    have hmem : r ∈ Typeline.dropPauses queue := hrest ▸ List.mem_cons_self
    have hne : r ≠ .silent .notReady := by simpa using List.of_mem_filter hmem
    have hpaused := h.dropPauses
    rw [hrest] at hpaused
    obtain rfl | ⟨b, rfl⟩ := hpaused.cases_cons
    · exact absurd rfl hne
    · exact Or.inr ⟨b, rest, rfl⟩

end Paused

namespace KeyDecoder

/-! ### Escape sequences -/

section Suffix

variable (soon : Silence)

theorem readParameters_suffix (parameters : List UInt8) (r : Reading) (queue : List Reading) :
    (readParameters soon parameters (r :: queue)).2 <:+ queue := by
  induction queue generalizing parameters r with
  | nil =>
    cases r with
    | silent s => exact List.suffix_rfl
    | byte b =>
      rw [readParameters]
      split_ifs <;> exact List.suffix_rfl
  | cons r' queue ih =>
    cases r with
    | silent s => exact List.suffix_rfl
    | byte b =>
      rw [readParameters]
      split_ifs
      · exact List.suffix_rfl
      · exact List.suffix_rfl
      · exact (ih _ r').trans (List.suffix_cons r' queue)

theorem readSecond_suffix (first : UInt8) (r : Reading) (queue : List Reading) :
    (readSecond soon first (r :: queue)).2 <:+ queue := by
  cases r with
  | silent s => exact List.suffix_rfl
  | byte b =>
    rw [readSecond]
    split_ifs
    · cases queue with
      | nil => exact List.suffix_rfl
      | cons r' queue =>
        exact (readParameters_suffix soon [b] r' queue).trans (List.suffix_cons r' queue)
    all_goals exact List.suffix_rfl

theorem readEscape_suffix (r : Reading) (queue : List Reading) :
    (readEscape soon (r :: queue)).2 <:+ queue := by
  cases r with
  | silent s => exact List.suffix_rfl
  | byte b =>
    cases queue with
    | nil => exact List.suffix_rfl
    | cons r' queue =>
      exact (readSecond_suffix soon b r' queue).trans (List.suffix_cons r' queue)

end Suffix

/-- All pauses in a queue stand behind what is read from it without them, where `read` reads a part
of an escape sequence. -/
def UnbrokenBy (read : List Reading → KeyReading × List Reading) (queue : List Reading) : Prop :=
  ∀ later, .silent .notReady :: later <:+ queue →
    (dropPauses later).length ≤ (read (dropPauses queue)).2.length

/-- No pause stands in the escape sequence whose bytes behind the escape character are read from a
queue. -/
def Unbroken (soon : Silence) (queue : List Reading) : Prop := UnbrokenBy (readEscape soon) queue

section Unbroken

variable {soon : Silence} (hsoon : soon ≠ .failed)

private theorem cutShort_notReady (k : Key) : cutShort k .notReady = .key k := rfl

include hsoon in
theorem cutShort_of_ne_failed (k : Key) : cutShort k soon = .key k := by
  cases soon with
  | failed => exact absurd rfl hsoon
  | _ => rfl

include hsoon in
/-- Pauses behind a part of an escape sequence make no difference to it, if they make none to what
is read behind each byte that may come next. -/
theorem read_dropPauses (read : List Reading → KeyReading × List Reading) {k : Key}
    (hnil : read [] = (cutShort k soon, []))
    (hsilent : ∀ s queue, read (.silent s :: queue) = (cutShort k s, queue))
    (hsuffix : ∀ r queue, (read (r :: queue)).2 <:+ queue) {queue : List Reading}
    (hpaused : Paused queue)
    (hnext : ∀ b later, queue = .byte b :: later →
      UnbrokenBy (fun rest => read (.byte b :: rest)) later →
        read (.byte b :: dropPauses later) =
          ((read (.byte b :: later)).1, dropPauses (read (.byte b :: later)).2))
    (hunbroken : UnbrokenBy read queue) :
    read (dropPauses queue) = ((read queue).1, dropPauses (read queue).2) := by
  cases queue with
  | nil => rw [dropPauses_nil, hnil, dropPauses_nil]
  | cons r later =>
    have htail : later <:+ r :: later := List.suffix_cons r later
    obtain rfl | ⟨b, rfl⟩ := hpaused.cases_cons
    · have hlength := hunbroken later List.suffix_rfl
      rw [dropPauses_pause] at hlength ⊢
      -- Nothing is read behind the pause, so there is nothing behind it.
      obtain hempty | ⟨b, rest, hrest⟩ := (hpaused.of_suffix htail).dropPauses_eq
      · rw [hempty, hnil, hsilent, hempty, cutShort_of_ne_failed hsoon, cutShort_notReady]
      · have hshort := (hsuffix (.byte b) rest).length_le
        rw [hrest, List.length_cons] at hlength
        omega
    · exact hnext b later rfl fun later' hlater' => hunbroken later' (hlater'.trans htail)

include hsoon in
private theorem readParameters_dropPauses {queue : List Reading} (hpaused : Paused queue)
    {parameters : List UInt8} (hunbroken : UnbrokenBy (readParameters soon parameters) queue) :
    readParameters soon parameters (dropPauses queue) =
      ((readParameters soon parameters queue).1,
        dropPauses (readParameters soon parameters queue).2) := by
  induction queue generalizing parameters with
  | nil => rfl
  | cons r queue ih =>
    refine read_dropPauses hsoon (readParameters soon parameters) rfl ?_
      (readParameters_suffix soon parameters) hpaused ?_ hunbroken
    · intro s queue
      rfl
    · intro b later heq hlater
      obtain ⟨rfl, rfl⟩ := List.cons.inj heq
      simp only [readParameters] at hlater ⊢
      split_ifs with hfinal hlimit
      · rfl
      · rfl
      · simp only [hfinal, hlimit, if_false] at hlater
        exact ih (hpaused.of_suffix (List.suffix_cons _ _)) hlater

include hsoon in
private theorem readSecond_dropPauses {queue : List Reading} (hpaused : Paused queue)
    {first : UInt8} (hunbroken : UnbrokenBy (readSecond soon first) queue) :
    readSecond soon first (dropPauses queue) =
      ((readSecond soon first queue).1, dropPauses (readSecond soon first queue).2) := by
  refine read_dropPauses hsoon (readSecond soon first) rfl ?_ (readSecond_suffix soon first)
    hpaused ?_ hunbroken
  · intro s queue
    rfl
  · intro b later heq hlater
    subst heq
    simp only [readSecond] at hlater ⊢
    split_ifs with hbracket hdigit hletter
    · simp only [hbracket, hdigit, and_self, if_true] at hlater
      exact readParameters_dropPauses hsoon (hpaused.of_suffix (List.suffix_cons _ _)) hlater
    all_goals rfl

include hsoon in
/-- **Pauses behind an escape sequence** make no difference to it. -/
theorem readEscape_dropPauses {queue : List Reading} (hpaused : Paused queue)
    (hunbroken : Unbroken soon queue) : readEscape soon (dropPauses queue) =
      ((readEscape soon queue).1, dropPauses (readEscape soon queue).2) := by
  refine read_dropPauses hsoon (readEscape soon) rfl ?_ (readEscape_suffix soon) hpaused ?_
    hunbroken
  · intro s queue
    rfl
  · intro b later heq hlater
    subst heq
    exact readSecond_dropPauses hsoon (hpaused.of_suffix (List.suffix_cons _ _)) hlater

include hsoon in
private theorem exists_readParameters_eq_key {queue : List Reading} (hpaused : Paused queue)
    (parameters : List UInt8) : ∃ k, (readParameters soon parameters queue).1 = .key k := by
  induction queue generalizing parameters with
  | nil => exact ⟨_, cutShort_of_ne_failed hsoon _⟩
  | cons r queue ih =>
    obtain rfl | ⟨b, rfl⟩ := hpaused.cases_cons
    · exact ⟨_, rfl⟩
    · rw [readParameters]
      split_ifs
      · exact ⟨_, rfl⟩
      · exact ⟨_, rfl⟩
      · exact ih (hpaused.of_suffix (List.suffix_cons _ _)) _

include hsoon in
private theorem exists_readSecond_eq_key {queue : List Reading} (hpaused : Paused queue)
    (first : UInt8) : ∃ k, (readSecond soon first queue).1 = .key k := by
  cases queue with
  | nil => exact ⟨_, cutShort_of_ne_failed hsoon _⟩
  | cons r queue =>
    obtain rfl | ⟨b, rfl⟩ := hpaused.cases_cons
    · exact ⟨_, rfl⟩
    · rw [readSecond]
      split_ifs
      · exact exists_readParameters_eq_key hsoon (hpaused.of_suffix (List.suffix_cons _ _)) _
      all_goals exact ⟨_, rfl⟩

include hsoon in
/-- An escape sequence is a key, wherever it ends. -/
theorem exists_readEscape_eq_key {queue : List Reading} (hpaused : Paused queue) :
    ∃ k, (readEscape soon queue).1 = .key k := by
  cases queue with
  | nil => exact ⟨_, cutShort_of_ne_failed hsoon _⟩
  | cons r queue =>
    obtain rfl | ⟨b, rfl⟩ := hpaused.cases_cons
    · exact ⟨_, rfl⟩
    · exact exists_readSecond_eq_key hsoon (hpaused.of_suffix (List.suffix_cons _ _)) b

end Unbroken

/-! ### Keys -/

section Keys

variable {soon : Silence} (hsoon : soon ≠ .failed)

/-- The number of bytes that a decoder keeps from one key to the next. -/
def kept (d : KeyDecoder) : Nat := d.stashed.toList.length + d.pending.length

/-- What a byte leads to. If it completes a key, no more is kept than before; if it is collected, it
is the last one of a character under way; and it starts an escape sequence only if there is none. -/
theorem accept_cases (d : KeyDecoder) (b : UInt8) :
    (∃ d' k, d.accept b = (d', .key k) ∧ d'.kept ≤ d.pending.length) ∨
      d.accept b = (⟨d.pending ++ [b], none⟩, .more) ∨
      (d.pending = [] ∧ b = 0x1B ∧ d.accept b = (idle, .escape)) := by
  rw [accept]
  cases d.pending with
  | nil =>
    dsimp only
    split_ifs with hescape
    · exact Or.inr (Or.inr ⟨rfl, hescape, rfl⟩)
    · exact Or.inl ⟨_, _, rfl, Nat.le_refl 0⟩
    · exact Or.inl ⟨_, _, rfl, Nat.le_refl 0⟩
    · exact Or.inr (Or.inl rfl)
  | cons lead tail =>
    dsimp only
    split_ifs
    · exact Or.inl ⟨_, _, rfl, by simp [kept]⟩
    · exact Or.inl ⟨_, _, rfl, Nat.zero_le _⟩
    · exact Or.inr (Or.inl rfl)

theorem accept_escape {d : KeyDecoder} (h : d.pending = []) :
    d.accept 0x1B = (idle, .escape) := by
  rw [accept, h]
  rfl

theorem readQueue_of_escape {d d' : KeyDecoder} {b : UInt8} (h : d.accept b = (d', .escape))
    (drained : Silence) (queue : List Reading) :
    readQueue drained soon d (.byte b :: queue) =
      ((readEscape soon queue).1, d', (readEscape soon queue).2) := by
  rw [readQueue, h]

private theorem readQueue_suffix (drained : Silence) (d : KeyDecoder) (r : Reading)
    (queue : List Reading) : (readQueue drained soon d (r :: queue)).2.2 <:+ queue := by
  induction queue generalizing d r with
  | nil =>
    cases r with
    | silent s => exact List.suffix_rfl
    | byte b =>
      obtain ⟨d', k, haccept, -⟩ | haccept | ⟨-, -, haccept⟩ := d.accept_cases b
      · rw [readQueue_of_accept haccept]
      · rw [readQueue_of_more haccept]
        exact List.suffix_rfl
      · rw [readQueue_of_escape haccept]
        exact List.suffix_rfl
  | cons r' queue ih =>
    have htail : queue <:+ r' :: queue := List.suffix_cons r' queue
    cases r with
    | silent s => exact List.suffix_rfl
    | byte b =>
      obtain ⟨d', k, haccept, -⟩ | haccept | ⟨-, -, haccept⟩ := d.accept_cases b
      · rw [readQueue_of_accept haccept]
      · rw [readQueue_of_more haccept]
        exact (ih _ r').trans htail
      · rw [readQueue_of_escape haccept]
        exact (readEscape_suffix soon r' queue).trans htail

include hsoon in
/-- **Pauses between the bytes of keys.** A reading that ends at a pause has collected the bytes
before it and can be left out, since the next one goes on where it has stopped; and any other
reading takes from a queue with pauses what it takes from the queue without them. -/
theorem readQueue_dropPauses {queue : List Reading} (hpaused : Paused queue) {d : KeyDecoder}
    (hstashed : d.stashed = none)
    (hescape : d.pending = [] → ∀ later, queue = .byte 0x1B :: later → Unbroken soon later) :
    (∃ (bytes : List UInt8) (later : List Reading),
      queue = bytes.map .byte ++ .silent .notReady :: later ∧
      readQueue .ended soon d queue = (.silent .notReady, ⟨d.pending ++ bytes, none⟩, later) ∧
      readQueue .ended soon d (dropPauses queue) =
        readQueue .ended soon ⟨d.pending ++ bytes, none⟩ (dropPauses later)) ∨
    readQueue .ended soon d (dropPauses queue) =
      ((readQueue .ended soon d queue).1, (readQueue .ended soon d queue).2.1,
        dropPauses (readQueue .ended soon d queue).2.2) := by
  induction queue generalizing d with
  | nil => exact Or.inr rfl
  | cons r later ih =>
    have hlater : Paused later := hpaused.of_suffix (List.suffix_cons r later)
    obtain rfl | ⟨b, rfl⟩ := hpaused.cases_cons
    · refine Or.inl ⟨[], later, rfl, ?_⟩
      rw [List.append_nil, ← hstashed]
      exact ⟨rfl, rfl⟩
    · rw [dropPauses_byte]
      obtain ⟨d', k, haccept, -⟩ | haccept | ⟨hpending, rfl, haccept⟩ := d.accept_cases b
      · rw [readQueue_of_accept haccept, readQueue_of_accept haccept]
        exact Or.inr rfl
      · rw [readQueue_of_more haccept, readQueue_of_more haccept]
        have hrest := @ih hlater ⟨d.pending ++ [b], none⟩ rfl fun hpending =>
          absurd hpending (by simp)
        refine hrest.imp ?_ id
        rintro ⟨bytes, later', rfl, hread, hrest⟩
        rw [List.append_assoc] at hread hrest
        exact ⟨b :: bytes, later', rfl, hread, hrest⟩
      · rw [readQueue_of_escape haccept, readQueue_of_escape haccept,
          readEscape_dropPauses hsoon hlater (hescape hpending later rfl)]
        exact Or.inr rfl

include hsoon in
/-- Where there is something to read, the reading gives a key or ends at a pause. -/
theorem readQueue_cases {queue : List Reading} (hpaused : Paused queue) (hne : queue ≠ [])
    (d : KeyDecoder) : (∃ k, (readQueue .ended soon d queue).1 = .key k) ∨
      (readQueue .ended soon d queue).1 = .silent .notReady := by
  induction queue generalizing d with
  | nil => exact absurd rfl hne
  | cons r later ih =>
    have hlater : Paused later := hpaused.of_suffix (List.suffix_cons r later)
    obtain rfl | ⟨b, rfl⟩ := hpaused.cases_cons
    · exact Or.inr rfl
    · obtain ⟨d', k, haccept, -⟩ | haccept | ⟨-, -, haccept⟩ := d.accept_cases b
      · rw [readQueue_of_accept haccept]
        exact Or.inl ⟨k, rfl⟩
      · rw [readQueue_of_more haccept]
        by_cases hend : later = []
        · subst hend
          exact Or.inl ⟨.char replacement, by simp [readQueue, silence]⟩
        · exact ih hlater hend _
      · rw [readQueue_of_escape haccept]
        exact Or.inl (exists_readEscape_eq_key hsoon hlater)

/-- A key takes something from the queue, or from what is kept in between. -/
theorem kept_readQueue {d : KeyDecoder} (hstashed : d.stashed = none) {queue : List Reading}
    (hne : queue ≠ []) :
    2 * (readQueue .ended soon d queue).2.2.length + (readQueue .ended soon d queue).2.1.kept + 2 ≤
      2 * queue.length + d.pending.length := by
  induction queue generalizing d with
  | nil => exact absurd rfl hne
  | cons r later ih =>
    rw [List.length_cons]
    cases r with
    | silent s =>
      simp only [readQueue, silence]
      split_ifs
      all_goals
        simp only [kept, hstashed, Option.toList_none, List.length_nil]
        omega
    | byte b =>
      obtain ⟨d', k, haccept, hkept⟩ | haccept | ⟨-, -, haccept⟩ := d.accept_cases b
      · rw [readQueue_of_accept haccept]
        simp only
        omega
      · rw [readQueue_of_more haccept]
        cases later with
        | nil => simp [readQueue, silence, kept]
        | cons r' later =>
          have hrest := @ih ⟨d.pending ++ [b], none⟩ rfl (by simp)
          rw [List.length_append, List.length_singleton] at hrest
          omega
      · rw [readQueue_of_escape haccept]
        cases later with
        | nil => simp [readEscape, kept, idle]
        | cons r' later =>
          have hrest := (readEscape_suffix soon r' later).length_le
          simp only [kept, idle, Option.toList_none, List.length_nil, List.length_cons]
          omega

end Keys

/-! ### Readings from an input -/

/-- What a decoder reads next: a byte that was put aside comes first. -/
def upcoming (d : KeyDecoder) (input : Input) : List Reading :=
  (d.stashed.map Reading.byte).toList ++ input.queue

section Inputs

variable {d : KeyDecoder} {input : Input}

/-- A decoder from which the byte that was put aside has been taken. -/
def unstashed (d : KeyDecoder) : KeyDecoder := { d with stashed := none }

theorem read_eq (d : KeyDecoder) (input : Input) : d.read input =
    ((readQueue input.drained input.drainedSoon d.unstashed (d.upcoming input)).1,
      (readQueue input.drained input.drainedSoon d.unstashed (d.upcoming input)).2.1,
      { input with queue :=
          (readQueue input.drained input.drainedSoon d.unstashed (d.upcoming input)).2.2 }) :=
  rfl

theorem upcoming_withoutPauses (d : KeyDecoder) (input : Input) :
    d.upcoming input.withoutPauses = dropPauses (d.upcoming input) := by
  rw [upcoming, upcoming]
  cases d.stashed <;> rfl

theorem paused_upcoming (hpaused : Paused input.queue) : Paused (d.upcoming input) := by
  rw [upcoming]
  cases d.stashed with
  | none => exact hpaused
  | some b => exact hpaused.byte_cons b

theorem suffix_of_upcoming_eq_cons {r : Reading} {later : List Reading}
    (h : d.upcoming input = r :: later) : later <:+ input.queue := by
  rw [upcoming] at h
  cases hstashed : d.stashed with
  | some b =>
    rw [hstashed] at h
    exact (List.cons.inj h).2 ▸ List.suffix_rfl
  | none =>
    rw [hstashed] at h
    exact (List.suffix_cons r later).trans (h ▸ List.suffix_rfl)

theorem read_suffix (d : KeyDecoder) (input : Input) :
    (d.read input).2.2.queue <:+ input.queue := by
  rw [read_eq, upcoming]
  cases d.stashed with
  | some b => exact readQueue_suffix _ _ _ _
  | none =>
    cases hqueue : input.queue with
    | nil => exact List.suffix_rfl
    | cons r queue => exact (readQueue_suffix _ _ _ _).trans (List.suffix_cons r queue)

/-- A reading takes something from the input or from what is kept, unless the input has ended. -/
theorem kept_read (hdrained : input.drained = .ended) (hended : (d.read input).1 ≠ .silent .ended) :
    2 * (d.read input).2.2.queue.length + (d.read input).2.1.kept <
      2 * input.queue.length + d.kept := by
  rw [read_eq, hdrained] at hended ⊢
  have hlength : (d.upcoming input).length = d.stashed.toList.length + input.queue.length := by
    rw [upcoming, List.length_append]
    cases d.stashed <;> rfl
  have hstashed : d.stashed.toList.length ≤ 1 := by
    cases d.stashed <;> simp
  by_cases hne : d.upcoming input = []
  · -- Only a character under way can be left.
    rw [hne, List.length_nil] at hlength
    rw [hne] at hended ⊢
    by_cases hpending : d.pending = []
    · exact absurd (by simp [readQueue, silence, unstashed, hpending]) hended
    · have := List.length_pos_iff.mpr hpending
      simp only [readQueue, silence, unstashed, kept, ne_eq, hpending, not_false_eq_true, and_self,
        if_true, Option.toList_none, List.length_nil]
      omega
  · have hread := @kept_readQueue input.drainedSoon d.unstashed rfl _ hne
    simp only [kept, unstashed] at hread ⊢
    omega

variable (hpaused : Paused input.queue) (hdrained : input.drained = .ended)
  (hsoon : input.drainedSoon ≠ .failed)

include hpaused hdrained hsoon

theorem read_cases (hne : d.upcoming input ≠ []) :
    (∃ k, (d.read input).1 = .key k) ∨ (d.read input).1 = .silent .notReady := by
  rw [read_eq, hdrained]
  exact readQueue_cases hsoon (paused_upcoming hpaused) hne _

/-- **Pauses in the input.** A reading that ends at a pause leaves the next key as it was, and any
other reading takes from the input what it takes from the input without its pauses. -/
theorem read_withoutPauses
    (hescape : d.pending = [] → ∀ later, d.upcoming input = .byte 0x1B :: later →
      Unbroken input.drainedSoon later) :
    ((d.read input).1 = .silent .notReady ∧
      d.read input.withoutPauses = (d.read input).2.1.read (d.read input).2.2.withoutPauses ∧
      ((d.read input).2.1.pending = [] → d.pending = [] ∧
        (d.read input).2.1.upcoming (d.read input).2.2.withoutPauses =
          d.upcoming input.withoutPauses)) ∨
    d.read input.withoutPauses =
      ((d.read input).1, (d.read input).2.1, (d.read input).2.2.withoutPauses) := by
  obtain ⟨queue, drained, soon, isTerminal, columns⟩ := input
  obtain rfl : drained = .ended := hdrained
  rw [read_eq d (Input.withoutPauses _), upcoming_withoutPauses]
  obtain ⟨bytes, later, hupcoming, hstop, hrest⟩ | hsame :=
    readQueue_dropPauses hsoon (paused_upcoming hpaused) (d := d.unstashed) rfl hescape
  · refine Or.inl ?_
    rw [read_eq d ⟨queue, _, _, _, _⟩, hstop, Input.withoutPauses, hrest]
    refine ⟨rfl, rfl, fun hpending => ?_⟩
    obtain ⟨hnone, rfl⟩ := List.append_eq_nil_iff.mp hpending
    refine ⟨hnone, ?_⟩
    rw [hupcoming]
    rfl
  · refine Or.inr ?_
    rw [read_eq d ⟨queue, _, _, _, _⟩, Input.withoutPauses, hsame]
    rfl

end Inputs

end KeyDecoder

end Typeline
