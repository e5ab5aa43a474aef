import FieldFill.Command.Arguments
import FieldFill.Command.Basic
import FieldFill.Command.Output
import FieldFill.Command.Run
import FieldFill.Decimal.Shortest
import FieldFill.Files.Fault
import FieldFill.Files.Path
import FieldFill.Files.Process
import FieldFill.Files.Replace
import FieldFill.Files.Tree
import FieldFill.Json.Fault
import FieldFill.Json.Reading
import FieldFill.Json.Value
import FieldFill.Layout.Line
import FieldFill.Layout.Reading
import FieldFill.Lexical.Closing
import FieldFill.Lexical.Fault
import FieldFill.Lexical.Scan
import FieldFill.Main
import FieldFill.Outline.Basic
import FieldFill.Outline.Header
import FieldFill.Outline.Locate
import FieldFill.Outline.Recovery
import FieldFill.Parameter.Assignment
import FieldFill.Parameter.Basic
import FieldFill.Parameter.Segment
import FieldFill.Plan.AtLine
import FieldFill.Plan.Basic
import FieldFill.Plan.Document
import FieldFill.Plan.Fault
import FieldFill.Proofs.Command.Listing
import FieldFill.Proofs.Command.Status
import FieldFill.Proofs.Files.Atomic
import FieldFill.Proofs.Files.Independent
import FieldFill.Proofs.Files.Replacing
import FieldFill.Proofs.Files.Turns
import FieldFill.Proofs.Files.Ways
import FieldFill.Proofs.Json.Grammar
import FieldFill.Proofs.Layout.Extent
import FieldFill.Proofs.Layout.Indentation
import FieldFill.Proofs.Layout.LogicalLine
import FieldFill.Proofs.Layout.Onset
import FieldFill.Proofs.Layout.Physical
import FieldFill.Proofs.Layout.Program
import FieldFill.Proofs.Layout.Statement
import FieldFill.Proofs.Layout.Tokens
import FieldFill.Proofs.Layout.Words
import FieldFill.Proofs.Lexical.Anywhere
import FieldFill.Proofs.Lexical.ByStretch
import FieldFill.Proofs.Lexical.Closed
import FieldFill.Proofs.Lexical.Depths
import FieldFill.Proofs.Lexical.Flat
import FieldFill.Proofs.Lexical.Matching
import FieldFill.Proofs.Lexical.Reads
import FieldFill.Proofs.Lexical.Refill
import FieldFill.Proofs.Lexical.Returns
import FieldFill.Proofs.Lexical.Stretches
import FieldFill.Proofs.Outline.ClassBlock
import FieldFill.Proofs.Outline.Classes
import FieldFill.Proofs.Outline.Disjoint
import FieldFill.Proofs.Outline.Growth
import FieldFill.Proofs.Outline.HeaderPattern
import FieldFill.Proofs.Outline.HeaderSearch
import FieldFill.Proofs.Outline.LineEnd
import FieldFill.Proofs.Outline.Recovered
import FieldFill.Proofs.Parameter.Classify
import FieldFill.Proofs.Parameter.Comments
import FieldFill.Proofs.Parameter.Cut
import FieldFill.Proofs.Parameter.Defaults
import FieldFill.Proofs.Parameter.Enclosed
import FieldFill.Proofs.Parameter.Lambda
import FieldFill.Proofs.Parameter.Names
import FieldFill.Proofs.Parameter.Opaque
import FieldFill.Proofs.Parameter.Receivers
import FieldFill.Proofs.Parameter.Returns
import FieldFill.Proofs.Parameter.Verdict
import FieldFill.Proofs.Parameter.Written
import FieldFill.Proofs.Plan.Agreement
import FieldFill.Proofs.Plan.Applies
import FieldFill.Proofs.Plan.Beside
import FieldFill.Proofs.Plan.Docstring
import FieldFill.Proofs.Plan.Filled
import FieldFill.Proofs.Plan.HeaderSite
import FieldFill.Proofs.Plan.InlineBody
import FieldFill.Proofs.Plan.LoneString
import FieldFill.Proofs.Plan.Messages
import FieldFill.Proofs.Plan.Nearest
import FieldFill.Proofs.Plan.OpeningString
import FieldFill.Proofs.Plan.Order
import FieldFill.Proofs.Plan.Place
import FieldFill.Proofs.Plan.Policy
import FieldFill.Proofs.Plan.Positions
import FieldFill.Proofs.Plan.Reports
import FieldFill.Proofs.Plan.Returns
import FieldFill.Proofs.Plan.SecondRun
import FieldFill.Proofs.Plan.Splice
import FieldFill.Proofs.Plan.Surroundings
import FieldFill.Proofs.Plan.TwoHeaders
import FieldFill.Proofs.Plan.Weave
import FieldFill.Proofs.Settings.Overlay
import FieldFill.Proofs.Settings.Values
import FieldFill.Proofs.Text.Lines
import FieldFill.Proofs.Text.Returns
import FieldFill.Proofs.Text.Slice
import FieldFill.Proofs.Text.SourceLines
import FieldFill.Proofs.Text.Trim
import FieldFill.Settings.Basic
import FieldFill.Settings.Reading
import FieldFill.Text.Basic
import FieldFill.Text.Blank
import FieldFill.Text.HiddenTable
import FieldFill.Text.Letter
import FieldFill.Text.LetterTable
import FieldFill.Text.Quoted
