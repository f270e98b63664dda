import PanelLint.Number.Width
import PanelLint.Promql.Lexer.Error
import PanelLint.Promql.Lexer.Lexeme
import PanelLint.CommandLine
import PanelLint.Run
import PanelLint.Main
import PanelLint.Settings.Load
import PanelLint.Dashboard.Load
import PanelLint.Toml.Reader
import PanelLint.Text.Utf8
import PanelLint.Dashboard.Document
import PanelLint.Rule.Basic
import PanelLint.Rule.ValidQuery
import PanelLint.Report
import PanelLint.Json.Reader
import PanelLint.Dashboard.Schema
import PanelLint.Query.Parse
import PanelLint.Promql.Outline
import PanelLint.Promql.Parse
import PanelLint.Promql.Check
import PanelLint.Promql.Pattern.Reader
import PanelLint.Promql.Grammar
import PanelLint.Promql.Function
import PanelLint.Promql.Expr
import PanelLint.Promql.Phrase
import PanelLint.Promql.Duration
import PanelLint.Query.Expansion
import PanelLint.Promql.Lexer
import PanelLint.Promql.Token
import PanelLint.Promql.Operator
import PanelLint.Dashboard.Basic
import PanelLint.Dashboard.Panels
import PanelLint.Json.Value
import PanelLint.Text.Blank
import PanelLint.Text.Caseless
import PanelLint.Text.CodePoints
import PanelLint.Text.Digit
import PanelLint.Text.Letter
import PanelLint.Text.Printable
import PanelLint.Text.Quoted
import PanelLint.Text.Word
import PanelLint.Number.Binary64
import PanelLint.Number.Read
import PanelLint.Number.Shortest
import PanelLint.Proofs.Text.Run
import PanelLint.Proofs.Query.Segmentation
import PanelLint.Proofs.Query.Substitutes
import PanelLint.Proofs.Query.Forms
import PanelLint.Proofs.Query.Rewriting
import PanelLint.Proofs.Query.Failures
import PanelLint.Proofs.Query.Structure
import PanelLint.Proofs.Promql.Checks
import PanelLint.Proofs.Promql.Phrases
import PanelLint.Proofs.Promql.Exchange
import PanelLint.Proofs.Promql.Readers
import PanelLint.Proofs.Promql.Expressions
import PanelLint.Proofs.Promql.Numbers
import PanelLint.Proofs.Promql.Steps
import PanelLint.Proofs.Promql.Runs
import PanelLint.Proofs.Query.Places
import PanelLint.Proofs.Query.Lexemes
import PanelLint.Proofs.Query.Twins
import PanelLint.Proofs.Query.Fillings
import PanelLint.Proofs.Query.Acceptance
import PanelLint.Proofs.Dashboard.Trees
import PanelLint.Proofs.Rule.Verdicts
import PanelLint.Proofs.Rule.Findings
import PanelLint.Proofs.Rule.NewPanel
import PanelLint.Proofs.Run.Files
import PanelLint.Proofs.Promql.Endless
import PanelLint.Proofs.Query.Relevance
import PanelLint.Proofs.Run.BrokenOff
import PanelLint.Proofs.Dashboard.Records
import PanelLint.Proofs.Dashboard.Conformance
import PanelLint.Proofs.Dashboard.Reading
import PanelLint.Proofs.Promql.Erasure
import PanelLint.Proofs.Query.Expansions
import PanelLint.Proofs.Query.Intervals
import PanelLint.Proofs.Dashboard.Context
import PanelLint.Proofs.Query.Durations
import PanelLint.Proofs.Query.Comments
import PanelLint.Proofs.Query.Operands
import PanelLint.Proofs.Query.Seams
import PanelLint.Proofs.Query.Sums
import PanelLint.Proofs.Query.Spellings
import PanelLint.Proofs.Query.Shadows
import PanelLint.Proofs.Query.Literals
import PanelLint.Proofs.Dashboard.Walk
import PanelLint.Proofs.Rule.Exclusion
import PanelLint.Proofs.Query.Quotes
import PanelLint.Proofs.Query.Search
import PanelLint.Proofs.Query.Layout
import PanelLint.Proofs.Settings.Keys
import PanelLint.Proofs.Settings.Layers
import PanelLint.Proofs.Text.Lines
import PanelLint.Proofs.Promql.Sources
import PanelLint.Proofs.Promql.Texts
import PanelLint.Proofs.Promql.Messages
import PanelLint.Proofs.Run.Reports
