import Marginalia.Color
import Marginalia.CommandLine.Arguments
import Marginalia.CommandLine.Invocation
import Marginalia.CommandLine.Report
import Marginalia.Context
import Marginalia.Conversion
import Marginalia.Converter
import Marginalia.Diagnostic
import Marginalia.Export
import Marginalia.Highlight.Basic
import Marginalia.Highlight.Json
import Marginalia.IndexSet
import Marginalia.Injection
import Marginalia.Json.Basic
import Marginalia.Json.Parser
import Marginalia.Json.Printer
import Marginalia.Latex.Escape
import Marginalia.Latex.PdfString
import Marginalia.Latex.Scan
import Marginalia.Latex.Vocabulary
import Marginalia.Main
import Marginalia.Markup.NamedCharacters
import Marginalia.Markup.Piece
import Marginalia.Markup.Reference
import Marginalia.Markup.Tag
import Marginalia.Markup.Visible
import Marginalia.Moment.Basic
import Marginalia.Moment.Parser
import Marginalia.Note
import Marginalia.Program.Basic
import Marginalia.Program.ByteList
import Marginalia.Program.Copying
import Marginalia.Program.Counting
import Marginalia.Program.Cutting
import Marginalia.Program.Editing
import Marginalia.Program.Editing.Basic
import Marginalia.Program.Editing.Editor
import Marginalia.Program.Editing.Parser
import Marginalia.Program.Escape
import Marginalia.Program.Format
import Marginalia.Program.Pattern
import Marginalia.Program.Pattern.Parser
import Marginalia.Program.Script.Basic
import Marginalia.Program.Script.Checking
import Marginalia.Program.Script.Lexeme
import Marginalia.Program.Script.Parser
import Marginalia.Program.Shell
import Marginalia.Program.Shell.Arithmetic
import Marginalia.Program.Shell.Builtin
import Marginalia.Program.Shell.Expansion
import Marginalia.Program.Shell.Glob
import Marginalia.Program.Shell.Runner
import Marginalia.Program.Shell.State
import Marginalia.Program.Shell.Test
import Marginalia.Program.Source
import Marginalia.Program.Substitution
import Marginalia.Program.Switch
import Marginalia.Program.Transliteration
import Marginalia.Program.Waiting
import Marginalia.Region
import Marginalia.Relocation
import Marginalia.Rendering
import Marginalia.Segment
import Marginalia.Sentinel
import Marginalia.Settings.Basic
import Marginalia.Settings.Reading
import Marginalia.Style
import Marginalia.Tag.Basic
import Marginalia.Tag.Json
import Marginalia.Text.Basic
import Marginalia.Text.Blank
import Marginalia.Text.Capital
import Marginalia.Text.Cluster
import Marginalia.Text.ClusterTable
import Marginalia.Text.CodeSet
import Marginalia.Text.DecimalDigit
import Marginalia.Text.FloatRange
import Marginalia.Text.Number
import Marginalia.Text.Quoted
import Marginalia.Text.Unprintable
import Marginalia.Text.Utf8
import Marginalia.Token
import Marginalia.Toml.Basic
import Marginalia.Toml.Parser
import Marginalia.Warning
import Marginalia.Wrapper
import Marginalia.Proofs.Sentinel
import Marginalia.Proofs.Token
import Marginalia.Proofs.Placement
import Marginalia.Proofs.Relocation.Closure
import Marginalia.Proofs.Relocation.Refinement
import Marginalia.Proofs.Relocation.Order
import Marginalia.Proofs.RoundTrip
import Marginalia.Proofs.Overlap
import Marginalia.Proofs.Export
import Marginalia.Proofs.Nesting.Bare
import Marginalia.Proofs.Anchor
import Marginalia.Proofs.Note
import Marginalia.Proofs.Relocation.Refilled
import Marginalia.Proofs.Relocation.Blindness
import Marginalia.Proofs.Injection
import Marginalia.Proofs.Palette
import Marginalia.Proofs.Inert
import Marginalia.Proofs.Relocation.Bracket
import Marginalia.Proofs.Relocation.Argument
import Marginalia.Proofs.LastMark
import Marginalia.Proofs.Markup.Range
import Marginalia.Proofs.Canonical
import Marginalia.Proofs.OpenArgument
import Marginalia.Proofs.Widening
import Marginalia.Proofs.Markup.Whitespace
import Marginalia.Proofs.Severed
import Marginalia.Proofs.PdfString
import Marginalia.Proofs.UnknownMark
import Marginalia.Proofs.Markup.LongestName
import Marginalia.Proofs.Markup.HiddenElement
import Marginalia.Proofs.Markup.NumericReference
import Marginalia.Proofs.Escape
import Marginalia.Proofs.Cut
import Marginalia.Proofs.Offset.Segment
import Marginalia.Proofs.Offset.Relocation
