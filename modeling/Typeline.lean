import Typeline.Text.Utf8
import Typeline.Text.BreakTable
import Typeline.Text.WidthTable
import Typeline.Text.Cluster
import Typeline.Text.Width
import Typeline.Terminal.Columns
import Typeline.Key.Codes
import Typeline.Terminal.Plain
import Typeline.Terminal.Screen
import Typeline.Key.Decoder
import Typeline.Edit.Line
import Typeline.History.File
import Typeline.Edit.Completion
import Typeline.Edit.Hint
import Typeline.Log
import Typeline.Edit.View
import Typeline.Session.Reader
import Typeline.Proofs.Text.Columns
import Typeline.Proofs.Edit.CursorBoundary
import Typeline.Proofs.Edit.RowWindow
import Typeline.Proofs.Session.RowRange
import Typeline.Proofs.Session.BlockScreen
import Typeline.Proofs.Session.RowScreen
import Typeline.Proofs.Edit.Capacity
import Typeline.Proofs.Session.Reached
import Typeline.Proofs.History.Saved
import Typeline.Proofs.Key.Characters
import Typeline.Proofs.Key.Sequences
import Typeline.Proofs.Key.Pauses
import Typeline.Proofs.Session.Runs
import Typeline.Proofs.Session.Pauses
import Typeline.Proofs.Session.OrdinaryText
import Typeline.Proofs.Edit.Likeness
import Typeline.Proofs.History.Likeness
import Typeline.Proofs.Session.Pairs
import Typeline.Proofs.Session.Independence
import Typeline.Proofs.Edit.Masked
import Typeline.Proofs.Session.Masking
import Typeline.Proofs.Session.CandidateCycle
import Typeline.Proofs.Session.FreshLine
import Typeline.Proofs.Session.Hiding
import Typeline.Proofs.Session.WidePrompt
import Typeline.Proofs.Text.Borders
import Typeline.Proofs.Session.PlainLines
import Typeline.Proofs.Key.Groups
import Typeline.Proofs.Text.Parts
import Typeline.Proofs.Edit.LeastWindow
import Typeline.Proofs.History.Queue
import Typeline.Proofs.Edit.TakingBack
import Typeline.Proofs.Edit.ByteLine
import Typeline.Proofs.Session.CutLines
import Typeline.Proofs.Text.Sums
import Typeline.Proofs.Edit.MaskedCount
import Typeline.Proofs.Terminal.Printing
import Typeline.Proofs.Terminal.Probe
import Typeline.Proofs.Text.StrictReading
import Typeline.Proofs.Terminal.CursorReport
import Typeline.Proofs.Edit.Replacing
import Typeline.Proofs.Session.HintRow
import Typeline.Proofs.Key.QuitWord
import Typeline.Proofs.Terminal.PlainColumns
import Typeline.Proofs.Session.RowCounts
import Typeline.Proofs.Terminal.Indices
