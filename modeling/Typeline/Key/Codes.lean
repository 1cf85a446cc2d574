import Typeline.Error
import Typeline.Terminal.Device
import Typeline.Terminal.RawMode
import Typeline.Terminal.Settings

/-!
# Display of key codes

Shows each byte that comes from the keyboard on a line of its own, until the word `quit` has been
typed or the input ends. This tells what a terminal sends for a key.
-/

namespace Typeline.KeyCodes

/-- The word that ends the display. -/
def quitWord : List UInt8 := Utf8.encode "quit".toList

/-- What the display starts with. -/
def banner : Text :=
  ("Line editor key codes debugging mode.\n"
    ++ "Press keys to see scan codes. Type 'quit' at any time to exit.\n").toList

/-- Two hexadecimal digits of a byte. -/
def hexadecimal (b : UInt8) : Text :=
  [Nat.digitChar (b.toNat / 16), Nat.digitChar (b.toNat % 16)]

/-- The line for one byte: as a character, if it is a printable one of ASCII, in hexadecimal and
in decimal. -/
def line (b : UInt8) : Text :=
  let shown := if 0x20 ≤ b ∧ b ≤ 0x7E then Char.ofNat b.toNat else '?'
  ['\'', shown, '\'', ' '] ++ hexadecimal b ++ " (".toList ++ decimal b.toNat
    ++ ") (type quit to exit)\n\r".toList

/-- How a display comes to its end. -/
inductive Ending where
  /-- The word was typed or the input ended. -/
  | quit
  /-- The display could not start or a read failed. -/
  | error (e : EditError)
  /-- The input stays silent for ever. -/
  | waiting
  deriving DecidableEq, Repr

/-- Show the bytes of a queue, `recent` being the last four bytes before it. The bytes that are
left and the output come back. -/
def display (drained : Silence) (recent : List UInt8) :
    List Reading → Output → Ending × List Reading × Output
  | [], output =>
    match drained with
    | .ended => (.quit, [], output)
    | .failed => (.error (.io .device), [], output)
    | .notReady => (.waiting, [], output)
  | .byte b :: queue, output =>
    let recent := recent.drop 1 ++ [b]
    if recent = quitWord then (.quit, queue, output)
    else display drained recent queue (output.write (line b))
  | .silent .notReady :: queue, output => display drained recent queue output
  | .silent .ended :: queue, output => (.quit, queue, output)
  | .silent .failed :: queue, output => (.error (.io .device), queue, output)

/-- Run the display. Without a terminal, given or assumed, there is none; a terminal that is given
has to be put into raw mode first, while one that is assumed is left as it is. -/
def run (settings : TerminalSettings) (mode : RawMode) (input : Input) (output : Output) :
    Ending × Input × Output :=
  if !input.isTerminal && !settings.assumeTerminal then (.error .notATerminal, input, output)
  else
    let output := output.write banner
    match if settings.assumeTerminal then .ok mode else mode.enable with
    | .error reason => (.error (.rawMode reason), input, output)
    | .ok _ =>
      let blanks := [0x20, 0x20, 0x20, 0x20]
      let (ending, queue, output) := display input.drained blanks input.queue output
      (ending, { input with queue }, output)

end Typeline.KeyCodes
