import Typeline.Text.Utf8
import Typeline.Text.CharWidth

/-!
# Classes of characters for cutting a text into clusters

Each character has one class; whether a text may be cut between two characters depends on their
classes and, for flags and joined consonants, on the characters further left.
-/

namespace Typeline

/-- What a character does at the borders of a cluster. -/
inductive BreakClass where
  /-- Carriage return. -/
  | carriageReturn
  /-- Line feed. -/
  | lineFeed
  /-- Any other control or format character that stands alone. -/
  | control
  /-- Extends the character before it. -/
  | extend
  /-- Belongs to the character before it and takes room of its own. -/
  | spacingMark
  /-- Belongs to the character after it. -/
  | prepend
  /-- Half of a flag. -/
  | regional
  /-- Leading consonant of a Hangul syllable. -/
  | leading
  /-- Vowel of a Hangul syllable. -/
  | vowel
  /-- Trailing consonant of a Hangul syllable. -/
  | trailing
  /-- Hangul syllable of a leading consonant and a vowel. -/
  | openSyllable
  /-- Hangul syllable that a trailing consonant closes. -/
  | closedSyllable
  /-- Consonant of a script whose consonants can be joined. -/
  | consonant
  /-- Everything else. -/
  | other
  deriving DecidableEq, Repr

/-- The class of a Hangul character. Syllables are laid out in groups of 28: the open one first,
then one for each trailing consonant. -/
def hangulClass? (c : Char) : Option BreakClass :=
  let n := c.toNat
  if 0xAC00 ≤ n ∧ n ≤ 0xD7A3 then
    if (n - 0xAC00) % 28 = 0 then some .openSyllable else some .closedSyllable
  else if (0x1100 ≤ n ∧ n ≤ 0x115F) ∨ (0xA960 ≤ n ∧ n ≤ 0xA97C) then some .leading
  else if (0x1160 ≤ n ∧ n ≤ 0x11A7) ∨ (0xD7B0 ≤ n ∧ n ≤ 0xD7C6) then some .vowel
  else if (0x11A8 ≤ n ∧ n ≤ 0x11FF) ∨ (0xD7CB ≤ n ∧ n ≤ 0xD7FB) then some .trailing
  else none

/-- Whether a character is one of the vowel signs of Kirat Rai, which behave as Hangul vowels. -/
def isKiratVowel (c : Char) : Bool :=
  c.toNat == 0x16D63 || (0x16D67 ≤ c.toNat && c.toNat ≤ 0x16D6A)

/-- The class of a character. -/
def breakClass (c : Char) : BreakClass :=
  if c.toNat < 0x80 then
    if c = '\r' then .carriageReturn
    else if c = '\n' then .lineFeed
    else if isControl c then .control
    else .other
  else if isRegional c then .regional
  else if isKiratVowel c then .vowel
  else match hangulClass? c with
    | some k => k
    | none =>
      if c = joiner || BreakTable.extend.contains c then .extend
      else if BreakTable.spacingMark.contains c then .spacingMark
      else if BreakTable.consonant.contains c then .consonant
      else if BreakTable.control.contains c then .control
      else if BreakTable.prepend.contains c then .prepend
      else .other

/-- Whether a character may stand between two joined consonants. -/
def isConjunctExtend (c : Char) : Bool := c ≠ '\u200C' && breakClass c == .extend

end Typeline
