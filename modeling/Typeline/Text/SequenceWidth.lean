import Typeline.Text.CharWidth
import Typeline.Text.Utf8

/-!
# Width of a sequence of characters

Some sequences are not as wide as their characters together. An emoji built from several ones
takes two columns, a selector chooses between the narrow text form and the wide emoji form of a
character, and in a few scripts neighbouring letters share one column.

The width is found from the last character to the first. `Sequel` holds what the characters to
the right of the current one offer to it: an emoji to join, a letter to share a column with, a
selector that may change its form. `widthBefore` gives the columns that a character adds in front
of a sequel and the sequel that it then forms for the character to its left.

## Main definitions

* `Sequel` : what the characters to the right offer to a character.
* `widthBefore` : one step from right to left.
* `sequenceWidth` : the columns of a sequence that is drawn as a whole.
-/

namespace Typeline

/-- A selector after a character. -/
inductive Selector where
  /-- Asks for the narrow form of an emoji. -/
  | text
  /-- Asks for the form as an emoji. -/
  | emoji
  /-- Asks for the wide form of a quotation mark. -/
  | wide
  deriving DecidableEq, Repr

/-- A letter that shares its column with certain letters before it. -/
inductive LigatureEnd where
  /-- Arabic alef, after lam. -/
  | alef
  /-- Hebrew lamed, after alef and a joiner. -/
  | lamed
  /-- A Khmer letter that is written below the letter before it, after the sign coeng. -/
  | subscript
  /-- Buginese ya, after a joiner, the vowel i and the letter a. -/
  | ya
  /-- Buginese ya with the joiner and the vowel i, after the letter a. -/
  | vowelYa
  /-- A consonant of Tifinagh, after a joiner and another one. -/
  | tifinagh
  /-- A consonant of Tifinagh with the joiner of that script before it. -/
  | joinedTifinagh
  /-- A second tone letter of Lisu, after a first one. -/
  | tone
  /-- The letter i of Old Turkic, after a joiner and ash. -/
  | orkhonI
  /-- The vowel sign e of Kirat Rai, after a sign that it forms one sign with. -/
  | kiratE
  /-- The vowel sign ai of Kirat Rai, which is e written twice, after the sign aa. -/
  | kiratAi
  deriving DecidableEq, Repr

/-- What the characters to the right offer to the character before them. -/
inductive Sequel where
  /-- Nothing that changes a width. -/
  | plain
  /-- A line feed. -/
  | lineFeed
  /-- A selector. -/
  | selector (s : Selector)
  /-- A letter that can share its column, behind a joiner or not, behind a selector or not. -/
  | ligature (letter : LigatureEnd) (joined : Bool) (s : Option Selector)
  /-- A skin tone. -/
  | modifier
  /-- A letter of a flag; `several` if another one follows. -/
  | regional (several : Bool)
  /-- An emoji. -/
  | emoji
  /-- A joiner and an emoji, behind the emoji selector or not. -/
  | joinedEmoji (selected : Bool)
  /-- A key cap, a joiner and an emoji, behind the emoji selector or not. -/
  | joinedKeycap (selected : Bool)
  /-- A letter of a flag, a joiner and an emoji. -/
  | joinedRegional
  /-- Two or more letters of flags, a joiner and an emoji; `even` tells their parity. -/
  | joinedRegionals (even : Bool)
  /-- The end of a tag sequence, a joiner and an emoji, after so many letters and digits of tags:
  letters alone, or letters after one to three digits. -/
  | joinedTag (letters digits : Nat)
  deriving DecidableEq, Repr

/-- Whether a selector can choose the form of a character as text or as an emoji. -/
def isEmojiSelectable (c : Char) : Bool := WidthTable.emojiSelectable.contains c

/-- Whether a character is wide unless the text selector follows it. -/
def isTextSelectable (c : Char) : Bool :=
  isEmojiSelectable c && WidthTable.emoji.contains c && !(0x1F200 ≤ c.toNat && c.toNat ≤ 0x1F2FF)

/-- Whether a character is a quotation mark with a wide form. -/
def isQuotationMark (c : Char) : Bool :=
  c == '\u2018' || c == '\u2019' || c == '\u201C' || c == '\u201D'

/-- Whether a character may stand inside any ligature. -/
def isLigatureTransparent (c : Char) : Bool :=
  let n := c.toNat
  n == 0x34F || (0x17B4 ≤ n && n ≤ 0x17B5) || (0x180B ≤ n && n ≤ 0x180D) || n == 0x180F
    || n == 0x200D || (0xFE00 ≤ n && n ≤ 0xFE0F) || (0xE0100 ≤ n && n ≤ 0xE01EF)

/-- Whether a character is a mark that may stand between Arabic letters. -/
def isArabicTransparent (c : Char) : Bool :=
  glyphWidth c == 0 && !WidthTable.joinBreaking.contains c

/-- Whether a character is an Arabic letter of the group of lam. -/
def isLam (c : Char) : Bool :=
  let n := c.toNat
  n == 0x644 || (0x6B5 ≤ n && n ≤ 0x6B8) || n == 0x76A || n == 0x8A6 || n == 0x8C7

/-- Whether a character is an Arabic letter of the group of alef. -/
def isAlef (c : Char) : Bool :=
  let n := c.toNat
  n == 0x622 || n == 0x623 || n == 0x625 || n == 0x627 || (0x671 ≤ n && n ≤ 0x673) || n == 0x675
    || n == 0x773 || n == 0x774 || (0x870 ≤ n && n ≤ 0x882)

/-- Whether a character is a Khmer letter that can be written below another one. -/
def isKhmerSubscript (c : Char) : Bool :=
  let n := c.toNat
  (0x1780 ≤ n && n ≤ 0x1782) || (0x1784 ≤ n && n ≤ 0x1787) || (0x1789 ≤ n && n ≤ 0x178C)
    || (0x178E ≤ n && n ≤ 0x1793) || (0x1795 ≤ n && n ≤ 0x1798) || (0x179B ≤ n && n ≤ 0x179D)
    || n == 0x17A0 || n == 0x17A2 || n == 0x17A7 || n == 0x17AB || n == 0x17AC || n == 0x17AF

/-- Whether a character is a consonant of Tifinagh. -/
def isTifinagh (c : Char) : Bool :=
  (0x2D31 ≤ c.toNat && c.toNat ≤ 0x2D65) || c.toNat == 0x2D6F

/-- Whether a character is a letter of the tags that name a flag. -/
def isTagLetter (c : Char) : Bool := 0xE0061 ≤ c.toNat && c.toNat ≤ 0xE007A

/-- Whether a character is a digit of the tags that name a flag. -/
def isTagDigit (c : Char) : Bool := 0xE0030 ≤ c.toNat && c.toNat ≤ 0xE0039

namespace Sequel

/-- The selector in front of a sequel. -/
def selector? : Sequel → Option Selector
  | .selector s => some s
  | .ligature _ _ s => s
  | .joinedEmoji true | .joinedKeycap true => some .emoji
  | _ => none

/-- A sequel behind which an emoji is joined. -/
def isJoined : Sequel → Bool
  | .joinedEmoji _ | .joinedKeycap _ => true
  | _ => false

/-- The sequel that is left when its selector has found nothing to select. -/
def unselect : Sequel → Sequel
  | .ligature letter joined _ => .ligature letter joined none
  | .selector _ | .joinedEmoji true | .joinedKeycap true => .plain
  | s => s

/-- The sequel behind the emoji selector. -/
def selectEmoji : Sequel → Sequel
  | .ligature letter joined _ => .ligature letter joined (some .emoji)
  | .joinedEmoji _ => .joinedEmoji true
  | .joinedKeycap _ => .joinedKeycap true
  | _ => .selector .emoji

/-- The sequel behind the text selector. -/
def selectText : Sequel → Sequel
  | .ligature letter joined _ => .ligature letter joined (some .text)
  | _ => .selector .text

end Sequel

/-- The width of a character by itself and what it offers to the character before it. -/
def widthAlone (c : Char) : Int × Sequel :=
  let n := c.toNat
  let letter (l : LigatureEnd) : Int × Sequel := (glyphWidth c, .ligature l false none)
  if n = 0x5DC then letter .lamed
  else if isAlef c then letter .alef
  else if isKhmerSubscript c then letter .subscript
  else if n = 0x1A10 then letter .ya
  else if isTifinagh c then letter .tifinagh
  else if n = 0xA4FC ∨ n = 0xA4FD then letter .tone
  else if n = 0x10C03 then letter .orkhonI
  else if n = 0x16D67 then letter .kiratE
  else if n = 0x16D68 then letter .kiratAi
  else if n = 0xFE0E then (glyphWidth c, .selector .text)
  else if n = 0xFE0F then (glyphWidth c, .selector .emoji)
  else if n = 0xFE01 then (glyphWidth c, .selector .wide)
  else if isRegional c then (glyphWidth c, .regional false)
  else if isEmojiModifier c then (glyphWidth c, .modifier)
  else if WidthTable.emoji.contains c then (glyphWidth c, .emoji)
  else (glyphWidth c, .plain)

/-- The width of a character in front of a letter that can share its column, if the two or a mark
between them concern the ligature. A width below zero takes back a column already counted. -/
def widthBeforeLigature (c : Char) (letter : LigatureEnd) (joined : Bool) :
    Option (Int × Sequel) :=
  let n := c.toNat
  if c = joiner then some (0, .ligature letter true none)
  else if isLigatureTransparent c then some (0, .ligature letter joined none)
  else match letter, joined with
    | .alef, false =>
      if isLam c then some (0, .plain)
      else if isArabicTransparent c then some (0, .ligature .alef false none)
      else none
    | .lamed, true => if n = 0x5D0 then some (0, .plain) else none
    | .subscript, false => if n = 0x17D2 then some (-1, .plain) else none
    | .ya, true => if n = 0x1A17 then some (0, .ligature .vowelYa false none) else none
    | .vowelYa, false => if n = 0x1A15 then some (0, .plain) else none
    | .tifinagh, _ =>
      if n = 0x2D7F then some (1, .ligature .joinedTifinagh false none)
      else if joined && isTifinagh c then some (0, .plain)
      else none
    | .joinedTifinagh, false => if isTifinagh c then some (-1, .plain) else none
    | .tone, false => if 0xA4F8 ≤ n ∧ n ≤ 0xA4FB then some (0, .plain) else none
    | .orkhonI, true => if n = 0x10C32 then some (0, .plain) else none
    | .kiratE, false =>
      if n = 0x16D63 ∨ n = 0x16D69 then some (0, .plain)
      else if n = 0x16D67 then some (0, .ligature .kiratAi false none)
      else if n = 0x16D68 then some (1, .ligature .kiratE false none)
      else none
    | .kiratAi, false => if n = 0x16D63 then some (0, .plain) else none
    | _, _ => none

/-- The width of a character in front of emoji, letters of flags or tags, if the two concern each
other. -/
def widthBeforeEmoji (c : Char) : Sequel → Option (Int × Sequel)
  | .modifier =>
    if WidthTable.modifiable.contains c then some (0, .emoji)
    else if c = joiner then some (0, .joinedEmoji false)
    else none
  | .regional several =>
    if isRegional c then some (1, .regional true)
    else if several && c == joiner then some (0, .joinedEmoji false)
    else none
  | .emoji => if c = joiner then some (0, .joinedEmoji false) else none
  | .joinedEmoji false =>
    if c = '\u20E3' then some (0, .joinedKeycap false)
    else if isRegional c then some (1, .joinedRegional)
    else if isEmojiModifier c then some (0, .modifier)
    else if c.toNat = 0xE007F then some (0, .joinedTag 0 0)
    else if WidthTable.emoji.contains c then some (0, .emoji)
    else none
  | .joinedRegional => if isRegional c then some (-1, .joinedRegionals true) else none
  | .joinedRegionals even =>
    if c = joiner then some (0, .joinedEmoji false)
    else if isRegional c then
      if even then some (3, .joinedRegionals false) else some (-1, .joinedRegionals true)
    else none
  | .joinedTag letters digits =>
    if isTagLetter c && digits == 0 && letters < 6 then some (0, .joinedTag (letters + 1) 0)
    else if isTagDigit c && digits < 3 && letters < 5 then some (0, .joinedTag letters (digits + 1))
    else if c.toNat = 0x1F3F4 ∧ (digits = 3 ∨ (digits = 0 ∧ 3 ≤ letters)) then some (0, .emoji)
    else none
  | _ => none

/-- The columns that a character adds in front of a sequel, and the sequel for the character
before it. Control characters count as one column here; a carriage return in front of a line feed
adds nothing to it. -/
def widthBefore (c : Char) (next : Sequel) : Int × Sequel :=
  if next.selector? = some .emoji ∧ isEmojiSelectable c then
    (if next.isJoined then 0 else 2, .emoji)
  else
    let next := if next.selector? = some .emoji then next.unselect else next
    if c.toNat ≤ 0xA0 then
      if c = '\n' then (1, .lineFeed)
      else if c = '\r' ∧ next = .lineFeed then (0, .plain)
      else (1, .plain)
    else if next = .plain then widthAlone c
    else if c = '\uFE0F' then (0, next.selectEmoji)
    else if c = '\uFE0E' then (0, next.selectText)
    else if next.selector? = some .text ∧ isTextSelectable c then (1, .plain)
    else if next.selector? = some .wide ∧ isQuotationMark c then (2, .plain)
    else
      let found :=
        match next.unselect with
        | .ligature letter joined _ => widthBeforeLigature c letter joined
        | s => widthBeforeEmoji c s
      found.getD (widthAlone c)

/-- The sum of the columns of a sequence, and what the sequence offers to a character before
it. -/
def sequenceFold (t : Text) : Int × Sequel :=
  t.foldr (fun c (sum, next) =>
    let (columns, next') := widthBefore c next
    (sum + columns, next')) (0, .plain)

/-- The columns of a sequence of characters that is drawn as a whole. -/
def sequenceWidth (t : Text) : Nat := (sequenceFold t).1.toNat

end Typeline
