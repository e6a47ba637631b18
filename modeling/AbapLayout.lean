import AbapLayout.Command.Arguments
import AbapLayout.Command.Run
import AbapLayout.Comment
import AbapLayout.Config.Calendar
import AbapLayout.Config.Integer
import AbapLayout.Config.Loading
import AbapLayout.Config.Value
import AbapLayout.Config.Yaml.Cursor
import AbapLayout.Config.Yaml.Fault
import AbapLayout.Config.Yaml.Lexer
import AbapLayout.Config.Yaml.Node
import AbapLayout.Config.Yaml.Number
import AbapLayout.Config.Yaml.Scalar
import AbapLayout.Config.Yaml.Schema
import AbapLayout.Config.Yaml.Timestamp
import AbapLayout.Config.Yaml.Token
import AbapLayout.Decimal.Shortest
import AbapLayout.Diff.Matching
import AbapLayout.Diff.Unified
import AbapLayout.Display
import AbapLayout.FileTree.Basic
import AbapLayout.FileTree.Glob
import AbapLayout.Layout.Alignment
import AbapLayout.Layout.Bracket
import AbapLayout.Layout.CommentText
import AbapLayout.Layout.Document
import AbapLayout.Layout.Keyword
import AbapLayout.Layout.Line
import AbapLayout.Layout.Rendering
import AbapLayout.Layout.Spacing
import AbapLayout.Layout.TokenClass
import AbapLayout.Level
import AbapLayout.Log
import AbapLayout.Main
import AbapLayout.Options.Basic
import AbapLayout.Options.Settings
import AbapLayout.Report
import AbapLayout.Span
import AbapLayout.Statement.Assembly
import AbapLayout.Statement.Basic
import AbapLayout.Statement.Classification
import AbapLayout.Statement.Kind
import AbapLayout.Statement.Raw
import AbapLayout.Statement.Splitting
import AbapLayout.Text.Alphanumeric
import AbapLayout.Text.Basic
import AbapLayout.Text.Blank
import AbapLayout.Text.Digit
import AbapLayout.Text.LetterCase
import AbapLayout.Text.LetterCase.Table
import AbapLayout.Text.Lines
import AbapLayout.Text.Printable
import AbapLayout.Text.Quoted
import AbapLayout.Text.Utf8
import AbapLayout.Token
import AbapLayout.Token.Lexer
import AbapLayout.Token.Literal
import AbapLayout.Token.Word
import AbapLayout.Validation
import AbapLayout.Workspace
import AbapLayout.Proofs.Acceptance
import AbapLayout.Proofs.BracketSweep
import AbapLayout.Proofs.ChainExpansion
import AbapLayout.Proofs.Compression
import AbapLayout.Proofs.Consent
import AbapLayout.Proofs.Containment
import AbapLayout.Proofs.EndHyphens
import AbapLayout.Proofs.Faults
import AbapLayout.Proofs.FullLineComments
import AbapLayout.Proofs.JoinedSources
import AbapLayout.Proofs.KeptContents
import AbapLayout.Proofs.KeywordCase
import AbapLayout.Proofs.LevelSteps
import AbapLayout.Proofs.LiteralGrammar
import AbapLayout.Proofs.LooseSelects
import AbapLayout.Proofs.MovedRuns
import AbapLayout.Proofs.Nesting
import AbapLayout.Proofs.PassThrough
import AbapLayout.Proofs.Previews
import AbapLayout.Proofs.ReadBack
import AbapLayout.Proofs.Reindentation
import AbapLayout.Proofs.SelectCounts
import AbapLayout.Proofs.TidyOutput
import AbapLayout.Proofs.TokenCover
import AbapLayout.Proofs.TruePlacements
