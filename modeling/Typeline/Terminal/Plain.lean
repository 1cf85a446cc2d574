import Typeline.Terminal.StreamParser

/-!
# Text without escape sequences

What is left to read of a stream when its sequences and its control characters are taken out. Only
line feeds stay, since they are part of the text.
-/

namespace Typeline

/-- The text that an event leaves. -/
def StreamEvent.plain : StreamEvent → Text
  | .print c => [c]
  | .execute b => if b = 0x0A then ['\n'] else []
  | .control _ _ => []

/-- The text in a stream of bytes. -/
def plainBytes (bytes : List UInt8) : Text :=
  (StreamParser.run StreamParser.start bytes).2.flatMap StreamEvent.plain

/-- The text in a text with escape sequences. -/
def plainText (t : Text) : Text := plainBytes (Utf8.encode t)

end Typeline
