import Mathlib.Data.List.TakeWhile
import Typeline.Proofs.Key.Pauses

/-!
# The keys of bytes

Bytes fall into groups, and a decoder reads one key from each. An ASCII byte is a group of its own.
Any other byte takes the bytes behind it into its group that continue it, up to the number that it
announces. What a group has in the end may be no character; its key is U+FFFD then. This is what a
decoder does byte by byte, with a character under way in its hands and at times a byte that has cut
one short, whatever pauses and failures stand between the bytes.

## Main definitions

* `Utf8.groups` : the groups into which bytes fall.
* `groupKey` : the key of a group.
* `KeyDecoder.Reads` : the keys that a decoder reads from an input.

## Main results

* `Utf8.filter_groups` : each ASCII byte is a group, and in no other one.
* `KeyDecoder.reads_groups` : a decoder reads the keys of the groups.
* `KeyDecoder.keys_of_bytes` : the keys of a text, of any bytes, and of a byte that cuts short.
-/

namespace Typeline

/-- Whether a byte is an ASCII character. -/
def isAsciiByte (b : UInt8) : Bool := b < 0x80

namespace Utf8

/-! ### Groups of bytes -/

/-- The later bytes of the group that a first byte starts: those that continue it, up to the number
that it announces. -/
def laterBytes (lead : UInt8) (rest : List UInt8) : List UInt8 :=
  (rest.take (announcedLength lead - 1)).takeWhile isContinuation

/-- The groups into which bytes fall. If more bytes may come, a last group that has not all that its
first byte announces is left out. -/
def groups (ended : Bool) : List UInt8 → List (List UInt8)
  | [] => []
  | lead :: rest =>
    if ended = false ∧ laterBytes lead rest = rest ∧ rest.length + 1 < announcedLength lead then []
    else (lead :: laterBytes lead rest) :: groups ended (rest.drop (laterBytes lead rest).length)
termination_by bytes => bytes.length
decreasing_by simp only [List.length_drop, List.length_cons]; omega

private theorem laterBytes_prefix (lead : UInt8) (rest : List UInt8) :
    laterBytes lead rest <+: rest :=
  (List.takeWhile_prefix _).trans (List.take_prefix _ _)

private theorem isContinuation_of_mem_laterBytes {lead b : UInt8} {rest : List UInt8}
    (h : b ∈ laterBytes lead rest) : isContinuation b = true := List.mem_takeWhile_imp h

private theorem not_isAsciiByte_of_isContinuation {b : UInt8} (h : isContinuation b = true) :
    isAsciiByte b = false := by
  rw [isContinuation, decide_eq_true_iff] at h
  rw [isAsciiByte, decide_eq_false_iff_not]
  exact UInt8.not_lt.mpr h.1

private theorem announcedLength_pos (b : UInt8) : 0 < announcedLength b := by
  rw [announcedLength]
  split_ifs <;> exact Nat.succ_pos _

theorem announcedLength_of_isAsciiByte {b : UInt8} (h : isAsciiByte b = true) :
    announcedLength b = 1 := by
  simp only [isAsciiByte, decide_eq_true_iff, UInt8.lt_iff_toNat_lt, UInt8.reduceToNat] at h
  rw [announcedLength, if_neg, if_neg, if_neg]
  all_goals
    simp only [UInt8.le_iff_toNat_le, UInt8.reduceToNat]
    omega

private theorem laterBytes_of_isAsciiByte {b : UInt8} (h : isAsciiByte b = true)
    (rest : List UInt8) : laterBytes b rest = [] := by
  rw [laterBytes, announcedLength_of_isAsciiByte h]
  rfl

/-- Bytes that have the form of later ones are all later ones, where as many are announced, or where
what follows is none. -/
theorem laterBytes_append {lead : UInt8} {tail rest : List UInt8}
    (hlength : tail.length + 1 ≤ announcedLength lead)
    (htail : ∀ b ∈ tail, isContinuation b = true)
    (hstop : tail.length + 1 = announcedLength lead ∨ ∀ b ∈ rest.head?, isContinuation b = false) :
    laterBytes lead (tail ++ rest) = tail := by
  rw [laterBytes, List.take_append, List.take_of_length_le (Nat.le_sub_one_of_lt hlength),
    List.takeWhile_append_of_pos htail]
  suffices hnone :
      (rest.take (announcedLength lead - 1 - tail.length)).takeWhile isContinuation = [] by
    rw [hnone, List.append_nil]
  rcases hstop with hall | hhead
  · rw [show announcedLength lead - 1 - tail.length = 0 by omega]
    rfl
  · cases rest with
    | nil => simp
    | cons b rest =>
      cases announcedLength lead - 1 - tail.length with
      | zero => rfl
      | succ n =>
        rw [List.take_succ_cons, List.takeWhile_cons, hhead b rfl]
        rfl

section Groups

variable (ended : Bool) {lead b : UInt8} {tail rest : List UInt8}
  (htail : ∀ b ∈ tail, isContinuation b = true)

include htail

/-- A group that has all that its first byte announces. -/
theorem groups_of_complete (h : tail.length + 1 = announcedLength lead) :
    groups ended (lead :: (tail ++ rest)) = (lead :: tail) :: groups ended rest := by
  rw [groups, laterBytes_append (Nat.le_of_eq h) htail (Or.inl h), List.drop_left, if_neg]
  rintro ⟨-, -, hshort⟩
  rw [List.length_append] at hshort
  omega

/-- A group that a byte cuts short. -/
theorem groups_of_cutShort (h : tail.length + 1 ≤ announcedLength lead)
    (hb : isContinuation b = false) :
    groups ended (lead :: (tail ++ b :: rest)) = (lead :: tail) :: groups ended (b :: rest) := by
  have hstop : ∀ b' ∈ (b :: rest).head?, isContinuation b' = false := by
    simpa using hb
  rw [groups, laterBytes_append h htail (Or.inr hstop), List.drop_left, if_neg]
  rintro ⟨-, hnone, -⟩
  exact absurd (List.self_eq_append_right.mp hnone) (List.cons_ne_nil b rest)

/-- A group behind which nothing comes. -/
theorem groups_of_end (h : tail.length + 1 < announcedLength lead) :
    groups ended (lead :: tail) = if ended then [lead :: tail] else [] := by
  have hlater : laterBytes lead (tail ++ []) = tail :=
    laterBytes_append (Nat.le_of_lt h) htail (Or.inr (by simp))
  rw [List.append_nil] at hlater
  rw [groups, hlater, List.drop_length, groups]
  cases ended with
  | true => rfl
  | false => exact if_pos ⟨rfl, rfl, h⟩

end Groups

/-- What a first byte takes, and what is left for the next group. -/
theorem laterBytes_append_drop (lead : UInt8) (rest : List UInt8) :
    laterBytes lead rest ++ rest.drop (laterBytes lead rest).length = rest := by
  obtain ⟨left, hrest⟩ := laterBytes_prefix lead rest
  conv => rhs; rw [← hrest]
  conv => lhs; rhs; rhs; rw [← hrest]
  rw [List.drop_left]

private theorem filter_isAsciiByte_laterBytes (lead : UInt8) (rest : List UInt8) :
    (laterBytes lead rest).filter isAsciiByte = [] :=
  List.filter_eq_nil_iff.mpr fun _ hb =>
    not_isAsciiByte_of_isContinuation (isContinuation_of_mem_laterBytes hb) ▸ Bool.false_ne_true

/-- All bytes are in groups, where no more can come. -/
theorem flatten_groups (bytes : List UInt8) : (groups true bytes).flatten = bytes := by
  induction bytes using groups.induct true with
  | case1 => rw [groups, List.flatten_nil]
  | case2 lead rest h => exact absurd h.1 Bool.noConfusion
  | case3 lead rest h ih =>
    rw [groups, if_neg h, List.flatten_cons, ih, List.cons_append, laterBytes_append_drop]

/-- **ASCII bytes.** The groups with an ASCII byte in them are the ASCII bytes, each of them alone
and in its turn. -/
theorem filter_groups (ended : Bool) (bytes : List UInt8) :
    (groups ended bytes).filter (·.any isAsciiByte) =
      (bytes.filter isAsciiByte).map fun b => [b] := by
  induction bytes using groups.induct ended with
  | case1 => rw [groups, List.filter_nil, List.filter_nil, List.map_nil]
  | case2 lead rest h =>
    have ⟨_, hall, hshort⟩ := h
    have hlead : ¬isAsciiByte lead = true := fun hascii => by
      rw [announcedLength_of_isAsciiByte hascii] at hshort
      omega
    have hlater := filter_isAsciiByte_laterBytes lead rest
    rw [hall] at hlater
    rw [groups, if_pos h, List.filter_cons_of_neg hlead, hlater, List.filter_nil, List.map_nil]
  | case3 lead rest h ih =>
    rw [groups, if_neg h]
    by_cases hlead : isAsciiByte lead = true
    · rw [laterBytes_of_isAsciiByte hlead, List.length_nil, List.drop_zero] at ih ⊢
      rw [List.filter_cons_of_pos (by simpa using hlead), List.filter_cons_of_pos hlead, ih,
        List.map_cons]
    · have hnone : (lead :: laterBytes lead rest).any isAsciiByte = false := by
        rw [List.any_cons, eq_false_of_ne_true hlead, Bool.false_or, List.any_eq_false]
        exact List.filter_eq_nil_iff.mp (filter_isAsciiByte_laterBytes lead rest)
      rw [List.filter_cons_of_neg (by simpa using hnone), List.filter_cons_of_neg hlead, ih]
      conv => rhs; rw [← laterBytes_append_drop lead rest]
      rw [List.filter_append, filter_isAsciiByte_laterBytes, List.nil_append]

end Utf8

/-- The key of a group of bytes. -/
def groupKey : List UInt8 → Key
  | [b] => if isAsciiByte b then KeyDecoder.asciiKey b else .char replacement
  | group => .char (Utf8.head group).1

namespace KeyDecoder

open Utf8

/-! ### The keys that a decoder reads -/

/-- The keys that a decoder reads when it is asked for one some times. -/
def keysRead (d : KeyDecoder) (input : Input) : Nat → List Key
  | 0 => []
  | n + 1 =>
    match d.read input with
    | (.key k, d, input) => k :: d.keysRead input n
    | (.silent _, d, input) => d.keysRead input n

/-- The keys that a decoder reads when it is asked often enough. -/
def Reads (d : KeyDecoder) (input : Input) (keys : List Key) : Prop :=
  ∃ bound, ∀ n ≥ bound, d.keysRead input n = keys

section Reads

variable {d d' : KeyDecoder} {input input' : Input} {keys : List Key}

theorem keysRead_of_key {k : Key} (h : d.read input = (.key k, d', input')) (n : Nat) :
    d.keysRead input (n + 1) = k :: d'.keysRead input' n := by
  rw [keysRead, h]

theorem keysRead_of_silent {s : Silence} (h : d.read input = (.silent s, d', input')) (n : Nat) :
    d.keysRead input (n + 1) = d'.keysRead input' n := by
  rw [keysRead, h]

theorem Reads.key {k : Key} (h : d'.Reads input' keys)
    (hread : d.read input = (.key k, d', input')) : d.Reads input (k :: keys) := by
  obtain ⟨bound, hkeys⟩ := h
  refine ⟨bound + 1, fun n hn => ?_⟩
  obtain ⟨m, rfl⟩ := Nat.exists_eq_add_of_le' hn
  rw [← Nat.add_assoc, keysRead_of_key hread, hkeys _ (Nat.le_add_left _ _)]

theorem Reads.silent {s : Silence} (h : d'.Reads input' keys)
    (hread : d.read input = (.silent s, d', input')) : d.Reads input keys := by
  obtain ⟨bound, hkeys⟩ := h
  refine ⟨bound + 1, fun n hn => ?_⟩
  obtain ⟨m, rfl⟩ := Nat.exists_eq_add_of_le' hn
  rw [← Nat.add_assoc, keysRead_of_silent hread, hkeys _ (Nat.le_add_left _ _)]

theorem Reads.of_read_eq (h : d'.Reads input' keys) (hread : d.read input = d'.read input') :
    d.Reads input keys := by
  obtain ⟨bound, hkeys⟩ := h
  refine ⟨bound + 1, fun n hn => ?_⟩
  obtain ⟨m, rfl⟩ := Nat.exists_eq_add_of_le' hn
  rw [← hkeys (m + (bound + 1)) (by omega), ← Nat.add_assoc, keysRead, keysRead, hread]

/-- Where a reading without a key changes nothing, there is none. -/
theorem keysRead_of_unchanged {s : Silence} (hread : d.read input = (.silent s, d, input))
    (n : Nat) : d.keysRead input n = [] := by
  induction n with
  | zero => rfl
  | succ n ih => rw [keysRead_of_silent hread, ih]

theorem reads_nil {s : Silence} (hread : d.read input = (.silent s, d, input)) :
    d.Reads input [] := ⟨0, fun n _ => keysRead_of_unchanged hread n⟩

end Reads

/-! ### Reading groups -/

/-- The keys of bytes behind which an input gives nothing else. -/
def keysOf (input : Input) (bytes : List UInt8) : List Key :=
  (groups (input.drained = .ended) bytes).map groupKey

/-- The keys of the groups into which the bytes of a queue fall are read from it, also where a
character is under way. -/
structure ReadsGroups (input : Input) (queue : List Reading) : Prop where
  fresh : idle.Reads { input with queue } (keysOf input (bytesIn queue))
  underway : ∀ {lead : UInt8} {tail : List UInt8}, tail.length + 1 < announcedLength lead →
    (∀ b ∈ tail, isContinuation b = true) →
      Reads ⟨lead :: tail, none⟩ { input with queue }
        (keysOf input (lead :: (tail ++ bytesIn queue)))

section Accept

variable {lead b : UInt8} {tail : List UInt8}

/-- A group that is short of what its first byte announces is no character. -/
theorem groupKey_of_short (h : tail.length + 1 < announcedLength lead) :
    groupKey (lead :: tail) = .char replacement := by
  have hlead : isAsciiByte lead = false := eq_false_of_ne_true fun hascii => by
    rw [announcedLength_of_isAsciiByte hascii] at h
    omega
  cases tail with
  | nil =>
    rw [groupKey, hlead]
    rfl
  | cons b tail =>
    have hnotAscii : ¬lead < 0x80 := by simpa [isAsciiByte] using hlead
    have hlength : ((b :: tail).take (announcedLength lead - 1)).length + 1 ≠
        announcedLength lead := by
      rw [List.length_take]
      omega
    rw [groupKey, head, head?, if_neg hnotAscii]
    · simp only [hlength, false_and, and_false, if_false, Option.getD_none]
    · simp

private theorem accept_of_alone (hescape : b ≠ 0x1B) (h : announcedLength b = 1) :
    idle.accept b = (idle, .key (groupKey [b])) := by
  by_cases hb : isAsciiByte b = true
  · rw [accept_ascii hescape (by simpa [isAsciiByte, UInt8.lt_iff_toNat_lt] using hb), groupKey,
      if_pos hb]
  · have hnotAscii : ¬b < 0x80 := by simpa [isAsciiByte] using hb
    simp only [accept, KeyDecoder.idle, groupKey]
    rw [if_neg hescape, if_neg hnotAscii, if_pos h, if_neg hb]

private theorem accept_of_lead (hescape : b ≠ 0x1B) (h : announcedLength b ≠ 1) :
    idle.accept b = (⟨[b], none⟩, .more) := by
  have hnotAscii : ¬b < 0x80 := fun hascii =>
    h (announcedLength_of_isAsciiByte (by simpa [isAsciiByte] using hascii))
  simp only [accept, KeyDecoder.idle]
  rw [if_neg hescape, if_neg hnotAscii, if_neg h]

theorem accept_of_cutShort (hb : isContinuation b = false) :
    accept ⟨lead :: tail, none⟩ b = (⟨[], some b⟩, .key (.char replacement)) := by
  simp only [accept]
  rw [hb]
  rfl

private theorem accept_of_last (hb : isContinuation b = true)
    (h : announcedLength lead ≤ tail.length + 2) :
    accept ⟨lead :: tail, none⟩ b = (idle, .key (groupKey (lead :: (tail ++ [b])))) := by
  have hkey : groupKey (lead :: (tail ++ [b])) = .char (head (lead :: (tail ++ [b]))).1 := by
    cases tail <;> rfl
  simp only [accept]
  rw [hb, Bool.not_true, if_neg Bool.false_ne_true, if_pos (by simpa using h), hkey]

private theorem accept_of_later (hb : isContinuation b = true)
    (h : tail.length + 2 < announcedLength lead) :
    accept ⟨lead :: tail, none⟩ b = (⟨lead :: (tail ++ [b]), none⟩, .more) := by
  simp only [accept]
  rw [hb, Bool.not_true, if_neg Bool.false_ne_true, if_neg (by simpa using h)]

end Accept

section Steps

variable {input : Input} {queue : List Reading} {pending pending' : List UInt8} {b : UInt8}

theorem read_of_accept_key {d' : KeyDecoder} {k : Key}
    (h : accept ⟨pending, none⟩ b = (d', .key k)) :
    read ⟨pending, none⟩ { input with queue := .byte b :: queue } =
      (.key k, d', { input with queue }) := by
  rw [read_eq]
  exact congrArg (fun r : KeyReading × KeyDecoder × List Reading =>
    (r.1, r.2.1, { input with queue := r.2.2 })) (readQueue_of_accept h _ _ queue)

private theorem read_of_accept_more (h : accept ⟨pending, none⟩ b = (⟨pending', none⟩, .more)) :
    read ⟨pending, none⟩ { input with queue := .byte b :: queue } =
      read ⟨pending', none⟩ { input with queue } := by
  rw [read_eq, read_eq]
  exact congrArg (fun r : KeyReading × KeyDecoder × List Reading =>
    (r.1, r.2.1, { input with queue := r.2.2 })) (readQueue_of_more h _ _ queue)

theorem read_idle_nil (input : Input) : idle.read { input with queue := [] } =
    (.silent input.drained, idle, { input with queue := [] }) := by
  simp [read_eq, upcoming, unstashed, readQueue, silence, KeyDecoder.idle]

/-- What is read of an empty queue. A character under way is lost at the end of the input. -/
theorem readsGroups_nil (input : Input) : ReadsGroups input [] := by
  have hidle := reads_nil (read_idle_nil input)
  refine ⟨?_, fun {lead tail} hshort htail => ?_⟩
  · rw [keysOf, bytesIn, List.filterMap_nil, groups]
    exact hidle
  · rw [keysOf, bytesIn, List.filterMap_nil, List.append_nil, groups_of_end _ htail hshort]
    by_cases hdrained : input.drained = .ended
    · rw [decide_eq_true hdrained, if_pos rfl, List.map_singleton, groupKey_of_short hshort]
      exact hidle.key (by simp [read_eq, upcoming, unstashed, readQueue, silence, hdrained,
        KeyDecoder.idle])
    · rw [decide_eq_false hdrained, if_neg Bool.false_ne_true]
      exact reads_nil (s := input.drained)
        (by simp [read_eq, upcoming, unstashed, readQueue, silence, hdrained])

/-- A pause or a failure leaves the decoder as it is. -/
theorem ReadsGroups.silent (h : ReadsGroups input queue) {s : Silence} (hs : s ≠ .ended) :
    ReadsGroups input (.silent s :: queue) := by
  have hread (pending : List UInt8) :
      read ⟨pending, none⟩ { input with queue := .silent s :: queue } =
        (.silent s, ⟨pending, none⟩, { input with queue }) := by
    simp [read_eq, upcoming, unstashed, readQueue, silence, hs]
  exact ⟨h.fresh.silent (hread []), fun hshort htail =>
    (h.underway hshort htail).silent (hread _)⟩

/-- A byte completes a group, is collected for it, or cuts it short and starts the next one. -/
theorem ReadsGroups.byte (h : ReadsGroups input queue) (hb : b ≠ 0x1B) :
    ReadsGroups input (.byte b :: queue) := by
  have hbytes : bytesIn (.byte b :: queue) = b :: bytesIn queue := rfl
  have hidle : idle.Reads { input with queue := .byte b :: queue }
      (keysOf input (b :: bytesIn queue)) := by
    by_cases halone : announcedLength b = 1
    · have hgroups (ended : Bool) :
          groups ended (b :: ([] ++ bytesIn queue)) = [b] :: groups ended (bytesIn queue) :=
        groups_of_complete ended (by simp) halone.symm
      rw [keysOf, ← List.nil_append (bytesIn queue), hgroups]
      exact h.fresh.key (read_of_accept_key (accept_of_alone hb halone))
    · have hshort : 1 < announcedLength b := by
        have := announcedLength_pos b
        omega
      have hunderway : Reads ⟨[b], none⟩ { input with queue } (keysOf input (b :: bytesIn queue)) :=
        h.underway hshort (by simp)
      exact hunderway.of_read_eq (read_of_accept_more (accept_of_lead hb halone))
  refine ⟨hidle, fun {lead tail} hshort htail => ?_⟩
  rw [hbytes]
  by_cases hlater : isContinuation b = true
  · have htail' : ∀ b' ∈ tail ++ [b], isContinuation b' = true := by
      simpa [or_imp, forall_and] using ⟨htail, hlater⟩
    have hlength : (tail ++ [b]).length = tail.length + 1 := List.length_append
    rw [List.append_cons]
    by_cases hlast : announcedLength lead ≤ tail.length + 2
    · rw [keysOf, groups_of_complete _ htail' (by omega)]
      exact h.fresh.key (read_of_accept_key (accept_of_last hlater hlast))
    · exact (h.underway (by omega) htail').of_read_eq
        (read_of_accept_more (accept_of_later hlater (Nat.lt_of_not_le hlast)))
  · have hcuts := eq_false_of_ne_true hlater
    rw [keysOf, groups_of_cutShort _ htail (Nat.le_of_lt hshort) hcuts, List.map_cons,
      groupKey_of_short hshort]
    -- The byte is put aside, which is as if it stood in front of the queue again.
    have haside : Reads ⟨[], some b⟩ { input with queue } (keysOf input (b :: bytesIn queue)) :=
      hidle.of_read_eq rfl
    exact haside.key (read_of_accept_key (accept_of_cutShort hcuts))

/-- **Reading groups.** Wherever pauses and failures stand between bytes without escape characters,
the keys of their groups are read. -/
theorem readsGroups (input : Input) (hescape : .byte 0x1B ∉ queue)
    (hended : .silent .ended ∉ queue) : ReadsGroups input queue := by
  induction queue with
  | nil => exact readsGroups_nil input
  | cons r queue ih =>
    rw [List.mem_cons, not_or] at hescape hended
    have hrest := ih hescape.2 hended.2
    cases r with
    | byte b => exact hrest.byte fun hb => hescape.1 (congrArg Reading.byte hb.symm)
    | silent s => exact hrest.silent fun hs => hended.1 (congrArg Reading.silent hs.symm)

/-- The characters of a text are read one by one. -/
theorem keysRead_encode (t : Text) (ht : ∀ c ∈ t, isAsciiControl c = false) (n : Nat) :
    idle.keysRead { input with queue := (encode t).map .byte ++ queue } (t.length + n) =
      t.map .char ++ idle.keysRead { input with queue } n := by
  induction t with
  | nil => rw [List.length_nil, Nat.zero_add]; rfl
  | cons c t ih =>
    have hread : idle.read { input with queue := (encode (c :: t)).map .byte ++ queue } =
        (.key (.char c), idle, { input with queue := (encode t).map .byte ++ queue }) := by
      rw [read_idle, encode, List.flatMap_cons, List.map_append, List.append_assoc,
        readQueue_encodeChar (ht c List.mem_cons_self)]
      rfl
    rw [List.length_cons, Nat.add_right_comm, keysRead_of_key hread,
      ih fun c' hc' => ht c' (List.mem_cons_of_mem c hc')]
    rfl

end Steps

/-- **The keys of bytes.** A text without control characters of ASCII is read as its characters. Any
bytes without an escape character are read as the keys of their groups, with pauses and failures
between them and without; all bytes are in groups, and each ASCII byte is one. A byte that cuts a
character short gives U+FFFD for it, and is then read as if it came next. -/
theorem keys_of_bytes (input : Input) :
    (∀ t : Text, (∀ c ∈ t, isAsciiControl c = false) → ∀ n,
      idle.keysRead { input with queue := (encode t).map .byte } (t.length + n) = t.map .char) ∧
    (∀ queue, .byte 0x1B ∉ queue → .silent .ended ∉ queue →
      idle.Reads { input with queue } (keysOf input (bytesIn queue)) ∧
      idle.Reads { input with queue := (bytesIn queue).map .byte }
        (keysOf input (bytesIn queue))) ∧
    (∀ bytes, (groups true bytes).flatten = bytes) ∧
    (∀ ended bytes, (groups ended bytes).filter (·.any isAsciiByte) =
      (bytes.filter isAsciiByte).map fun b => [b]) ∧
    ∀ (d : KeyDecoder) (b : UInt8) (queue : List Reading), d.pending ≠ [] → d.stashed = none →
      isContinuation b = false →
      d.read { input with queue := .byte b :: queue } =
          (.key (.char replacement), ⟨[], some b⟩, { input with queue }) ∧
        read ⟨[], some b⟩ { input with queue } =
          idle.read { input with queue := .byte b :: queue } := by
  refine ⟨fun t ht n => ?_, fun queue hescape hended => ⟨?_, ?_⟩, flatten_groups, filter_groups,
    fun d b queue hpending hstashed hb => ⟨?_, rfl⟩⟩
  · have hkeys := @keysRead_encode input [] t ht n
    rwa [List.append_nil, keysRead_of_unchanged (read_idle_nil input), List.append_nil] at hkeys
  · exact (readsGroups input hescape hended).fresh
  · have hplain : ReadsGroups input ((bytesIn queue).map .byte) := by
      refine readsGroups input (fun hmem => ?_) (by simp)
      obtain ⟨b, hb, heq⟩ := List.mem_map.mp hmem
      exact hescape (heq ▸ byte_mem_of_mem_bytesIn hb)
    have hfresh := hplain.fresh
    rwa [bytesIn_map_byte] at hfresh
  · obtain ⟨pending, stashed⟩ := d
    obtain rfl : stashed = none := hstashed
    obtain ⟨lead, tail, rfl⟩ := List.exists_cons_of_ne_nil hpending
    exact read_of_accept_key (accept_of_cutShort hb)

/-- A character of two bytes that a letter cuts short, and one of three bytes with a failure in
it. -/
def brokenCharacters : List Reading :=
  [.byte 0xC3, .silent .notReady, .byte 0x61, .byte 0xE4, .silent .failed, .byte 0xB8, .byte 0xAD]

theorem keys_of_bytes_brokenCharacters :
    idle.keysRead (.ofBytes (encode ['é', '中']) true true none) 3 = [.char 'é', .char '中'] ∧
      idle.Reads ⟨brokenCharacters, .ended, .ended, true, none⟩
        [.char replacement, .char 'a', .char '中'] ∧
      read ⟨[0xC3], none⟩ (.ofBytes [0x1B] true true none) =
        (.key (.char replacement), ⟨[], some 0x1B⟩, .ofBytes [] true true none) := by
  obtain ⟨htext, -, -, -, hcut⟩ := keys_of_bytes (.ofBytes [] true true none)
  obtain ⟨-, hbytes, -, -, -⟩ := keys_of_bytes ⟨[], .ended, .ended, true, none⟩
  refine ⟨htext ['é', '中'] (by simp [isAsciiControl]) 1, ?_,
    (hcut ⟨[0xC3], none⟩ 0x1B [] (by simp) rfl rfl).1⟩
  have hkeys : keysOf ⟨[], .ended, .ended, true, none⟩ (bytesIn brokenCharacters) =
      [.char replacement, .char 'a', .char '中'] := by
    decide +kernel
  exact hkeys ▸ (hbytes brokenCharacters (by decide) (by decide)).1

end KeyDecoder

end Typeline
