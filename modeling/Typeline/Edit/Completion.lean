import Typeline.Text.Utf8

/-!
# Completion

Pressing the completion key again and again shows one candidate after another, and after the last
one the line as it was typed, from where the cycle starts anew.
-/

namespace Typeline

/-- A source of candidates for a line. -/
abbrev Completer := Text → List Text

/-- Where the cycle through the candidates stands: at a candidate, or behind the last one, which
means the line as it was typed; or the cycle has not started. -/
structure CompletionCycle where
  /-- The place in the cycle. -/
  index : Option Nat
  deriving DecidableEq, Repr

namespace CompletionCycle

/-- A cycle that has not started. -/
def idle : CompletionCycle := ⟨none⟩

/-- Whether the cycle has started. -/
def isActive (c : CompletionCycle) : Bool := c.index.isSome

/-- The place after the present one among so many candidates. -/
def nextIndex (c : CompletionCycle) (candidates : Nat) : Nat :=
  match c.index with
  | none => 0
  | some index => (index + 1) % (candidates + 1)

/-- Go on by one place. -/
def advance (c : CompletionCycle) (candidates : Nat) : CompletionCycle :=
  ⟨some (c.nextIndex candidates)⟩

end CompletionCycle

end Typeline
