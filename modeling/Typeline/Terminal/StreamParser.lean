import Typeline.Text.Utf8

/-!
# Reading a stream for a terminal

A terminal reads a stream of bytes as characters to print, control bytes to carry out and escape
sequences. `StreamParser` is the reader, one byte at a time; what it finds are `StreamEvent`s.
Of the sequences only control sequences have an effect here, so the others are only read to their
end: operating system commands, device control strings and the strings of the remaining kinds.

The bytes come in chunks. A character that the border between two chunks cuts is printed in any
case, also if it is a control character.

## Main definitions

* `StreamState`, `StreamEvent` : where a reader stands, and what it finds.
* `StreamParser.step` : reading one byte.
* `StreamParser.run`, `StreamParser.runChunk` : reading bytes, and reading a chunk with its
  borders.
-/

namespace Typeline

/-- What a terminal finds in a stream. -/
inductive StreamEvent where
  /-- A character to print. -/
  | print (c : Char)
  /-- A control byte to carry out. -/
  | execute (b : UInt8)
  /-- A control sequence: its parameters, each by its first value, and its final byte. -/
  | control (parameters : List Nat) (final : UInt8)
  deriving DecidableEq, Repr

/-- The parameters of a control sequence as they are read. -/
structure StreamParameters where
  /-- The first values of the parameters that are complete. -/
  complete : List Nat
  /-- The first value of the parameter under way, once it has got a second one. -/
  started : Option Nat
  /-- The value under way. -/
  value : Nat
  /-- The number of values before the one under way. -/
  count : Nat
  deriving DecidableEq, Repr

namespace StreamParameters

/-- No parameters yet. -/
def empty : StreamParameters := ⟨[], none, 0, 0⟩

/-- The largest number of values in one sequence. -/
def limit : Nat := 32

/-- Whether no further value is taken. -/
def isFull (p : StreamParameters) : Bool := p.count == limit

/-- Read a digit. A value stops at the largest one of 16 bits. -/
def digit (p : StreamParameters) (b : UInt8) : StreamParameters :=
  if p.isFull then p
  else { p with value := min 65535 (p.value * 10 + (b.toNat - 0x30)) }

/-- Read the end of a value within a parameter. -/
def endValue (p : StreamParameters) : StreamParameters :=
  if p.isFull then p
  else { p with started := some (p.started.getD p.value), value := 0, count := p.count + 1 }

/-- Read the end of a parameter. -/
def endParameter (p : StreamParameters) : StreamParameters :=
  if p.isFull then p
  else ⟨p.complete ++ [p.started.getD p.value], none, 0, p.count + 1⟩

/-- All parameters at the end of the sequence. -/
def all (p : StreamParameters) : List Nat :=
  if p.isFull then p.complete ++ p.started.toList
  else p.complete ++ [p.started.getD p.value]

end StreamParameters

/-- Where a reader stands in a stream. -/
inductive StreamState where
  /-- Between sequences, after the bytes `seen` of a character; `cut` if the border of a chunk came
  after one of them. -/
  | ground (seen : List UInt8) (cut : Bool)
  /-- After an escape character. -/
  | escape
  /-- After an escape character and intermediate bytes. -/
  | escapeIntermediate
  /-- At the start of a control sequence. -/
  | controlEntry
  /-- In the parameters of a control sequence. -/
  | controlParameters (p : StreamParameters)
  /-- In the intermediate bytes of a control sequence. -/
  | controlIntermediate (p : StreamParameters)
  /-- In a control sequence that is malformed. -/
  | controlIgnored
  /-- At the start of a device control string. -/
  | deviceEntry
  /-- In the parameters of a device control string. -/
  | deviceParameters
  /-- In the intermediate bytes of a device control string. -/
  | deviceIntermediate
  /-- In a device control string that is malformed. -/
  | deviceIgnored
  /-- After the letter of a device control string. -/
  | deviceData
  /-- In an operating system command. -/
  | systemCommand
  /-- In a string of another kind. -/
  | otherString
  deriving DecidableEq, Repr

namespace StreamParser

/-- Between sequences, with nothing under way. -/
def start : StreamState := .ground [] false

/-- Whether a byte is a control byte that does not end a sequence. -/
def isInnerControl (b : UInt8) : Bool := b ≤ 0x17 ∨ b = 0x19 ∨ (0x1C ≤ b ∧ b ≤ 0x1F)

/-- Whether a byte cancels a sequence. -/
def isCancel (b : UInt8) : Bool := b = 0x18 ∨ b = 0x1A

/-- Whether a byte is an intermediate byte. -/
def isIntermediate (b : UInt8) : Bool := 0x20 ≤ b ∧ b ≤ 0x2F

/-- Whether a byte is a final byte of a control sequence. -/
def isFinal (b : UInt8) : Bool := 0x40 ≤ b ∧ b ≤ 0x7E

/-- Whether a character is a control character of the first or the second set. -/
def isExecuted (c : Char) : Bool := c.toNat < 0x20 || (0x80 ≤ c.toNat && c.toNat ≤ 0x9F)

/-- What a piece of the stream means outside sequences. A lone byte of the second set of control
characters is carried out although it belongs to no character. -/
def pieceEvent (cut : Bool) : Utf8.Piece → StreamEvent
  | .char c => if isExecuted c && !cut then .execute (UInt8.ofNat c.toNat) else .print c
  | .stray [b] => if b ≤ 0x9F then .execute b else .print replacement
  | .stray _ => .print replacement

/-- Read a byte outside sequences. An escape character cuts a character that is under way. -/
def stepGround (seen : List UInt8) (cut : Bool) (b : UInt8) : StreamState × List StreamEvent :=
  if b = 0x1B then (.escape, if seen.isEmpty then [] else [.print replacement])
  else
    let (seen', found) := Utf8.scan seen b
    let cut' := cut && !seen'.isEmpty && found.isEmpty
    (.ground seen' cut',
      match found with
      | [] => []
      | piece :: rest => pieceEvent cut piece :: rest.map (pieceEvent false))

/-- Read a byte that has no meaning of its own where it stands: it may still cancel the sequence
or start a new one. -/
def stepAnywhere (state : StreamState) (b : UInt8) : StreamState × List StreamEvent :=
  if isCancel b then (start, [.execute b])
  else if b = 0x1B then (.escape, [])
  else (state, [])

/-- Read a byte after an escape character. -/
def stepEscape (b : UInt8) : StreamState × List StreamEvent :=
  if isInnerControl b then (.escape, [.execute b])
  else if isCancel b then (start, [.execute b])
  else if isIntermediate b then (.escapeIntermediate, [])
  else if b = 0x50 then (.deviceEntry, [])
  else if b = 0x58 ∨ b = 0x5E ∨ b = 0x5F then (.otherString, [])
  else if b = 0x5B then (.controlEntry, [])
  else if b = 0x5D then (.systemCommand, [])
  else if 0x30 ≤ b ∧ b ≤ 0x7E then (start, [])
  else (.escape, [])

/-- Read a byte of the parameters of a control sequence. -/
def stepParameters (state : StreamState) (p : StreamParameters) (b : UInt8) :
    StreamState × List StreamEvent :=
  if isInnerControl b then (state, [.execute b])
  else if isIntermediate b then (.controlIntermediate p, [])
  else if 0x30 ≤ b ∧ b ≤ 0x39 then (.controlParameters (p.digit b), [])
  else if b = 0x3A then (.controlParameters p.endValue, [])
  else if b = 0x3B then (.controlParameters p.endParameter, [])
  else if 0x3C ≤ b ∧ b ≤ 0x3F then
    (if state = .controlEntry then .controlParameters p else .controlIgnored, [])
  else if isFinal b then (start, [.control p.all b])
  else stepAnywhere state b

/-- Read a byte. -/
def step (state : StreamState) (b : UInt8) : StreamState × List StreamEvent :=
  match state with
  | .ground seen cut => stepGround seen cut b
  | .escape => stepEscape b
  | .escapeIntermediate =>
    if isInnerControl b then (state, [.execute b])
    else if 0x30 ≤ b ∧ b ≤ 0x7E then (start, [])
    else stepAnywhere state b
  | .controlEntry => stepParameters state .empty b
  | .controlParameters p => stepParameters state p b
  | .controlIntermediate p =>
    if isInnerControl b then (state, [.execute b])
    else if 0x30 ≤ b ∧ b ≤ 0x3F then (.controlIgnored, [])
    else if isFinal b then (start, [.control p.all b])
    else stepAnywhere state b
  | .controlIgnored =>
    if isInnerControl b then (state, [.execute b])
    else if isFinal b then (start, [])
    else stepAnywhere state b
  | .deviceEntry =>
    if isIntermediate b then (.deviceIntermediate, [])
    else if 0x30 ≤ b ∧ b ≤ 0x3F then (.deviceParameters, [])
    else if isFinal b then (.deviceData, [])
    else stepAnywhere state b
  | .deviceParameters =>
    if isIntermediate b then (.deviceIntermediate, [])
    else if 0x3C ≤ b ∧ b ≤ 0x3F then (.deviceIgnored, [])
    else if isFinal b then (.deviceData, [])
    else stepAnywhere state b
  | .deviceIntermediate =>
    if 0x30 ≤ b ∧ b ≤ 0x3F then (.deviceIgnored, [])
    else if isFinal b then (.deviceData, [])
    else stepAnywhere state b
  | .deviceIgnored => stepAnywhere state b
  | .deviceData => if b = 0x9C then (start, []) else stepAnywhere state b
  | .systemCommand => if b = 0x07 then (start, []) else stepAnywhere state b
  | .otherString => stepAnywhere state b

/-- Read bytes. -/
def run (state : StreamState) : List UInt8 → StreamState × List StreamEvent
  | [] => (state, [])
  | b :: rest =>
    let (state, events) := step state b
    let (state, more) := run state rest
    (state, events ++ more)

/-- The bytes of a chunk that are read after the part of a character that ended the chunk before.
When that part is followed by the last byte of a character of two bytes, an ASCII character and a
byte outside ASCII, the four are taken together and the ASCII character is lost. -/
def rejoin (state : StreamState) (chunk : List UInt8) : List UInt8 :=
  match state, chunk with
  | .ground [lead] true, b :: c :: d :: rest =>
    if Utf8.announcedLength lead = 2 ∧ Utf8.isContinuation b ∧ c < 0x80 ∧ 0x80 ≤ d then
      b :: d :: rest
    else chunk
  | _, _ => chunk

/-- Mark a character that is under way as cut by the border of a chunk. -/
def endChunk : StreamState → StreamState
  | .ground seen _ => .ground seen !seen.isEmpty
  | state => state

/-- Read a chunk. -/
def runChunk (state : StreamState) (chunk : List UInt8) : StreamState × List StreamEvent :=
  let (state, events) := run state (rejoin state chunk)
  (endChunk state, events)

end StreamParser

end Typeline
