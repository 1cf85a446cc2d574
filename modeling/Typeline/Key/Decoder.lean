import Typeline.Key.Basic
import Typeline.Terminal.Device

/-!
# Decoding of keys

A terminal sends a printable key as the UTF-8 form of its character, a key together with the
control key as one control byte, and an editing key as an escape sequence. A `KeyDecoder` reads
one key at a time. The bytes of a character may come in pieces, so it keeps the bytes of a
character under way from one reading to the next; an escape sequence is read in one go, and if
its bytes do not follow each other at once it ends there.

## Main definitions

* `KeyDecoder` : what is kept from one key to the next.
* `KeyDecoder.accept` : reading one byte.
* `KeyDecoder.read` : reading one key.
-/

namespace Typeline

/-- What reading a key gives. -/
inductive KeyReading where
  /-- A key. -/
  | key (k : Key)
  /-- No key. -/
  | silent (s : Silence)
  deriving DecidableEq, Repr

/-- The state of a decoder between two keys. -/
structure KeyDecoder where
  /-- The bytes of a character under way. -/
  pending : List UInt8
  /-- A byte that has been read but belongs to the next key. -/
  stashed : Option UInt8
  deriving DecidableEq, Repr

namespace KeyDecoder

/-- A decoder that has read nothing. -/
def idle : KeyDecoder := ⟨[], none⟩

/-- The key of an ASCII byte. -/
def asciiKey (b : UInt8) : Key :=
  match b.toNat with
  | 0x01 => .home
  | 0x02 => .left
  | 0x03 => .interrupt
  | 0x04 => .deleteOrEnd
  | 0x05 => .lineEnd
  | 0x06 => .right
  | 0x08 => .backspace
  | 0x09 => .tab
  | 0x0A => .enter
  | 0x0B => .killToEnd
  | 0x0C => .clearScreen
  | 0x0D => .enter
  | 0x0E => .down
  | 0x10 => .up
  | 0x14 => .transpose
  | 0x15 => .killLine
  | 0x17 => .deleteWord
  | 0x7F => .backspace
  | n => if n < 0x20 then .ignored else .char (Char.ofNat n)

/-- The key of a control sequence without parameters, by its final byte. -/
def controlKey (final : UInt8) : Key :=
  if final = 'A'.toUInt8 then .up
  else if final = 'B'.toUInt8 then .down
  else if final = 'C'.toUInt8 then .right
  else if final = 'D'.toUInt8 then .left
  else if final = 'H'.toUInt8 then .home
  else if final = 'F'.toUInt8 then .lineEnd
  else .ignored

/-- The key of a sequence of the escape character, the letter O and one more byte. -/
def singleShiftKey (final : UInt8) : Key :=
  if final = 'H'.toUInt8 then .home
  else if final = 'F'.toUInt8 then .lineEnd
  else .ignored

/-- The key of a control sequence with parameters, by these and its final byte: the editing keys
have a number before a tilde. -/
def numberedKey (parameters : List UInt8) (final : UInt8) : Key :=
  if final ≠ '~'.toUInt8 then .ignored
  else if parameters = ['3'.toUInt8] then .delete
  else if parameters = ['1'.toUInt8] ∨ parameters = ['7'.toUInt8] then .home
  else if parameters = ['4'.toUInt8] ∨ parameters = ['8'.toUInt8] then .lineEnd
  else .ignored

/-- The largest number of bytes between the bracket and the final byte of a control sequence. -/
def parameterLimit : Nat := 16

/-- What comes of an escape sequence that is not continued: a failure of the device is passed on,
and otherwise the bytes so far make up a key. -/
def cutShort (k : Key) : Silence → KeyReading
  | .failed => .silent .failed
  | _ => .key k

/-- Read the rest of a control sequence after some bytes of its parameters. -/
def readParameters (soon : Silence) (parameters : List UInt8) :
    List Reading → KeyReading × List Reading
  | [] => (cutShort .ignored soon, [])
  | .silent s :: queue => (cutShort .ignored s, queue)
  | .byte b :: queue =>
    if 0x40 ≤ b ∧ b ≤ 0x7E then (.key (numberedKey parameters b), queue)
    else if parameterLimit ≤ parameters.length then (.key .ignored, queue)
    else readParameters soon (parameters ++ [b]) queue

/-- Read the second byte after an escape character, and what follows it in the same sequence. -/
def readSecond (soon : Silence) (first : UInt8) : List Reading → KeyReading × List Reading
  | [] => (cutShort .ignored soon, [])
  | .silent s :: queue => (cutShort .ignored s, queue)
  | .byte b :: queue =>
    if first = '['.toUInt8 then
      if 0x30 ≤ b ∧ b ≤ 0x39 then readParameters soon [b] queue
      else (.key (controlKey b), queue)
    else if first = 'O'.toUInt8 then (.key (singleShiftKey b), queue)
    else (.key .ignored, queue)

/-- Read what follows an escape character; nothing at once, and it was the key of that name. -/
def readEscape (soon : Silence) : List Reading → KeyReading × List Reading
  | [] => (cutShort .escape soon, [])
  | .silent s :: queue => (cutShort .escape s, queue)
  | .byte b :: queue => readSecond soon b queue

/-- What reading a byte leads to. -/
inductive Progress where
  /-- A key is complete. -/
  | key (k : Key)
  /-- More bytes of a character have to come. -/
  | more
  /-- An escape sequence starts. -/
  | escape
  deriving DecidableEq, Repr

/-- Read a byte. In a character under way a byte that does not continue it ends it, as U+FFFD, and
is put aside. -/
def accept (d : KeyDecoder) (b : UInt8) : KeyDecoder × Progress :=
  match d.pending with
  | [] =>
    if b = 0x1B then (idle, .escape)
    else if b < 0x80 then (idle, .key (asciiKey b))
    else if Utf8.announcedLength b = 1 then (idle, .key (.char replacement))
    else (⟨[b], none⟩, .more)
  | lead :: tail =>
    if !Utf8.isContinuation b then (⟨[], some b⟩, .key (.char replacement))
    else
      let bytes := lead :: (tail ++ [b])
      if Utf8.announcedLength lead ≤ bytes.length then
        (idle, .key (.char (Utf8.head bytes).1))
      else (⟨bytes, none⟩, .more)

/-- What comes of a reading without a byte: a character under way at the end of the input is shown
as U+FFFD. -/
def silence (d : KeyDecoder) (s : Silence) : KeyReading × KeyDecoder :=
  if s = .ended ∧ d.pending ≠ [] then (.key (.char replacement), ⟨[], d.stashed⟩)
  else (.silent s, d)

/-- Read a key from a queue. -/
def readQueue (drained soon : Silence) (d : KeyDecoder) :
    List Reading → KeyReading × KeyDecoder × List Reading
  | [] =>
    let (r, d) := d.silence drained
    (r, d, [])
  | .silent s :: queue =>
    let (r, d) := d.silence s
    (r, d, queue)
  | .byte b :: queue =>
    match d.accept b with
    | (d, .key k) => (.key k, d, queue)
    | (d, .more) => readQueue drained soon d queue
    | (d, .escape) =>
      let (r, queue) := readEscape soon queue
      (r, d, queue)

/-- Read a key. A byte that was put aside comes first. -/
def read (d : KeyDecoder) (input : Input) : KeyReading × KeyDecoder × Input :=
  let queue := (d.stashed.map Reading.byte).toList ++ input.queue
  let (r, d, queue) :=
    readQueue input.drained input.drainedSoon { d with stashed := none } queue
  (r, d, { input with queue })

end KeyDecoder

end Typeline
