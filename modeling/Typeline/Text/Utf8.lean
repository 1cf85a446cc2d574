/-!
# Texts and their bytes

A text is the list of its characters. Lengths and positions that leave the library count the
bytes of the UTF-8 form, so `byteLength` measures a text and `encode` writes it.

Reading goes the other way in two manners. `head?` is strict: it reads the one character whose
encoding starts a list of bytes, and nothing else. `pieces` reads any list of bytes: it cuts the
list into characters and into stretches that belong to no encoding, each as long as it can be
while some encoding still starts with it. `lossy` shows every such stretch as U+FFFD.

## Main definitions

* `Text`, `byteLength` : texts and the number of bytes that they take.
* `Utf8.encode` : the bytes of a text.
* `Utf8.head?`, `Utf8.steps` : strict reading, one character at a time.
* `Utf8.pieces`, `Utf8.lossy`, `Utf8.decode?` : reading of any bytes, byte by byte through
  `Utf8.scan`.
-/

namespace Typeline

/-- A text is the list of its characters. -/
abbrev Text := List Char

/-- The number of bytes in the UTF-8 form of a text. -/
def byteLength : Text → Nat
  | [] => 0
  | c :: t => c.utf8Size + byteLength t

@[simp] theorem byteLength_nil : byteLength [] = 0 := rfl

@[simp] theorem byteLength_cons (c : Char) (t : Text) :
    byteLength (c :: t) = c.utf8Size + byteLength t := rfl

@[simp] theorem byteLength_append (s t : Text) :
    byteLength (s ++ t) = byteLength s + byteLength t := by
  induction s with
  | nil => simp
  | cons c s ih => simp [ih, Nat.add_assoc]

@[simp] theorem byteLength_reverse (t : Text) : byteLength t.reverse = byteLength t := by
  induction t with
  | nil => rfl
  | cons c t ih => simp [ih, Nat.add_comm]

/-- Whether every character of a text is an ASCII character. -/
def isAscii (t : Text) : Bool := t.all fun c => c.toNat < 0x80

/-- Cut a text at a byte offset. There is no cut inside a character or past the end. The part
before the cut comes back with its last character first. -/
def splitAtByte? (offset : Nat) (t : Text) : Option (List Char × List Char) :=
  go offset [] t
where
  /-- Move characters over until the offset is used up. -/
  go : Nat → List Char → List Char → Option (List Char × List Char)
    | 0, before, after => some (before, after)
    | _ + 1, _, [] => none
    | n + 1, before, c :: after =>
      if c.utf8Size ≤ n + 1 then go (n + 1 - c.utf8Size) (c :: before) after else none
  termination_by _ _ after => after.length

/-- The character that stands for bytes that cannot be read. -/
def replacement : Char := '\uFFFD'

namespace Utf8

/-- The bytes of one character. -/
def encodeChar (c : Char) : List UInt8 := String.utf8EncodeChar c

/-- The bytes of a text. -/
def encode (t : Text) : List UInt8 := t.flatMap encodeChar

/-- The length of the encoding that a first byte announces; a byte that announces nothing stands
for itself. -/
def announcedLength (b : UInt8) : Nat :=
  if 0xC0 ≤ b ∧ b ≤ 0xDF then 2
  else if 0xE0 ≤ b ∧ b ≤ 0xEF then 3
  else if 0xF0 ≤ b ∧ b ≤ 0xF7 then 4
  else 1

/-- Whether a byte has the form of a later byte of an encoding. -/
def isContinuation (b : UInt8) : Bool := 0x80 ≤ b ∧ b ≤ 0xBF

/-- The code point spelled by a first byte and the bytes after it: the first byte gives what is
left of its bits below the length mark, every later byte gives six bits. -/
def codeOf (lead : UInt8) (tail : List UInt8) : Nat :=
  tail.foldl (fun code b => code * 64 + b.toNat % 64) (lead.toNat % (64 >>> tail.length))

/-- The least code point whose encoding has a given length. -/
def leastCode : Nat → Nat
  | 2 => 0x80
  | 3 => 0x800
  | 4 => 0x10000
  | _ => 0

/-- The character whose encoding starts the bytes, with the length of that encoding. Overlong
forms, surrogates and numbers past U+10FFFF are encodings of nothing. -/
def head? : List UInt8 → Option (Char × Nat)
  | [] => none
  | lead :: rest =>
    if lead < 0x80 then some (Char.ofNat lead.toNat, 1)
    else
      let length := announcedLength lead
      let tail := rest.take (length - 1)
      let code := codeOf lead tail
      if 2 ≤ length ∧ tail.length + 1 = length ∧ tail.all isContinuation
          ∧ leastCode length ≤ code ∧ code.isValidChar then
        some (Char.ofNat code, length)
      else none

/-- The first character of some bytes and the number of bytes it takes, where a byte that starts
no encoding counts as U+FFFD and takes one byte. -/
def head (bytes : List UInt8) : Char × Nat := (head? bytes).getD (replacement, 1)

/-- Read bytes to their end by `head`, going on after the bytes that each step took. -/
def steps : List UInt8 → List (Char × Nat)
  | [] => []
  | b :: rest =>
    let (c, taken) := head (b :: rest)
    (c, taken) :: steps (rest.drop (taken - 1))
termination_by bytes => bytes.length
decreasing_by simp only [List.length_drop, List.length_cons]; omega

/-- One piece of a stream of bytes: a character, or bytes that belong to no encoding. -/
inductive Piece where
  /-- A whole encoding was read. -/
  | char (c : Char)
  /-- These bytes start an encoding at best, and what came next does not continue it. -/
  | stray (bytes : List UInt8)
  deriving Repr, DecidableEq

/-- Whether a byte is the first one of some encoding of more than one byte. -/
def isLead (b : UInt8) : Bool := 0xC2 ≤ b ∧ b ≤ 0xF4

/-- Whether some encoding starts with the bytes seen so far, which are the start of one, and then
the byte `b`. Only the second byte is bound by more than its form: it must not make the encoding
overlong, a surrogate, or a number past U+10FFFF. -/
def continues : List UInt8 → UInt8 → Bool
  | [lead], b =>
    if lead = 0xE0 then 0xA0 ≤ b ∧ b ≤ 0xBF
    else if lead = 0xED then 0x80 ≤ b ∧ b ≤ 0x9F
    else if lead = 0xF0 then 0x90 ≤ b ∧ b ≤ 0xBF
    else if lead = 0xF4 then 0x80 ≤ b ∧ b ≤ 0x8F
    else isContinuation b
  | _, b => isContinuation b

/-- Read a byte between two characters: the bytes of an encoding now under way, and what is
already complete. -/
def scanFirst (b : UInt8) : List UInt8 × List Piece :=
  if b < 0x80 then ([], [.char (Char.ofNat b.toNat)])
  else if isLead b then ([b], [])
  else ([], [.stray [b]])

/-- Read a byte after the bytes `seen` of an encoding under way. A byte that does not continue
the encoding ends it and is then read on its own. -/
def scan (seen : List UInt8) (b : UInt8) : List UInt8 × List Piece :=
  match seen with
  | [] => scanFirst b
  | lead :: tail =>
    if continues seen b then
      if seen.length + 1 = announcedLength lead then
        ([], [.char (Char.ofNat (codeOf lead (tail ++ [b])))])
      else (seen ++ [b], [])
    else
      let (rest, found) := scanFirst b
      (rest, .stray seen :: found)

/-- The pieces of bytes that follow the bytes `seen` of an encoding under way. An encoding that
the end cuts off is one stray piece. -/
def piecesAfter : List UInt8 → List UInt8 → List Piece
  | [], [] => []
  | seen, [] => [.stray seen]
  | seen, b :: rest =>
    let (seen', found) := scan seen b
    found ++ piecesAfter seen' rest

/-- The pieces of a list of bytes. -/
def pieces (bytes : List UInt8) : List Piece := piecesAfter [] bytes

/-- The character that shows a piece. -/
def Piece.shown : Piece → Char
  | .char c => c
  | .stray _ => replacement

/-- The character that a piece is, if it is one. -/
def Piece.char? : Piece → Option Char
  | .char c => some c
  | .stray _ => none

/-- The text of any bytes, with U+FFFD for every stray piece. -/
def lossy (bytes : List UInt8) : Text := (pieces bytes).map Piece.shown

/-- The text of bytes that are the UTF-8 form of one. -/
def decode? (bytes : List UInt8) : Option Text := (pieces bytes).mapM Piece.char?

end Utf8

end Typeline
