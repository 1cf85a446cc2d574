import Typeline.Text.BreakTable
import Typeline.Text.WidthTable

/-!
# Width of a character

How many columns of a terminal one character takes. A control character takes none, and neither
does a character that only modifies what stands before it; ideographs, Hangul syllables and most
emoji take two. The classes are those of Unicode, read outside East Asian text.
-/

namespace Typeline

/-- Whether a character is a control character: C0, delete or C1. -/
def isControl (c : Char) : Bool :=
  c.toNat < 0x20 || (0x7F ≤ c.toNat && c.toNat < 0xA0)

/-- Whether a character is an ASCII control character. -/
def isAsciiControl (c : Char) : Bool := c.toNat < 0x20 || c.toNat == 0x7F

/-- The zero width joiner, which glues what stands on its two sides. -/
def joiner : Char := '\u200D'

/-- Whether a character is a skin tone for the emoji before it. -/
def isEmojiModifier (c : Char) : Bool := 0x1F3FB ≤ c.toNat && c.toNat ≤ 0x1F3FF

/-- Whether a character is a letter of the pairs that are shown as flags. -/
def isRegional (c : Char) : Bool := 0x1F1E6 ≤ c.toNat && c.toNat ≤ 0x1F1FF

/-- The columns of a character that is shown on its own and is no control character. The first
cases are the exceptions among marks and letters; the Khmer sign of the third one is drawn three
columns wide. -/
def glyphWidth (c : Char) : Nat :=
  let n := c.toNat
  if n ≤ 0xA0 then 1
  else if n = 0xFF9E ∨ n = 0xFF9F ∨ n = 0x2D7F then 1
  else if n = 0x17D8 then 3
  else if n = 0x115F ∨ n = 0x17A4 ∨ isEmojiModifier c then 2
  else if BreakTable.extend.contains c || WidthTable.hidden.contains c then 0
  else if WidthTable.wide.contains c then 2
  else 1

/-- Whether a character never moves the cursor: marks, joiners, selectors, tags, skin tones. -/
def isZeroWidth (c : Char) : Bool :=
  !isControl c && (isEmojiModifier c || glyphWidth c == 0)

/-- The columns of a character when a terminal prints it: none, one or two. -/
def charWidth (c : Char) : Nat :=
  if isControl c || isZeroWidth c then 0 else min 2 (glyphWidth c)

end Typeline
