import Typeline.Text.Utf8

/-!
# Decimal numbers

A number is written with as few decimal digits as it takes. It is read with any number of leading
zeros and with a plus sign or none, as long as it fits into 64 bits.
-/

namespace Typeline

/-- The largest count that can be held: all of 64 bits set. -/
def maxCount : Nat := 0xFFFFFFFFFFFFFFFF

/-- The decimal digits of a number. -/
def decimal (n : Nat) : Text := Nat.toDigits 10 n

/-- The value of a list of decimal digits. -/
def digitsValue (digits : List Char) : Nat :=
  digits.foldl (fun value c => value * 10 + (c.toNat - '0'.toNat)) 0

/-- The number that a text of digits alone stands for, if there is at least one digit and the
number fits. -/
def unsigned? (t : Text) : Option Nat :=
  if t ≠ [] ∧ t.all Char.isDigit ∧ digitsValue t ≤ maxCount then some (digitsValue t) else none

/-- The number that a text stands for: digits after a plus sign or none. -/
def count? : Text → Option Nat
  | '+' :: t => unsigned? t
  | t => unsigned? t

end Typeline
