import CallLint.Codec.Config
import CallLint.Codec.Diagnostic
import CallLint.Codec.Fix
import CallLint.Codec.Syntax
import CallLint.CommandLine.Arguments
import CallLint.CommandLine.Input
import CallLint.CommandLine.Run
import CallLint.Config.Basic
import CallLint.Config.Load
import CallLint.Decimal
import CallLint.Diagnostic
import CallLint.Diff.Compact
import CallLint.Diff.Script
import CallLint.Diff.Unified
import CallLint.Engine
import CallLint.Environment
import CallLint.Expr
import CallLint.FilePattern.Basic
import CallLint.FilePattern.Expand
import CallLint.FileSystem
import CallLint.Fix.Edit
import CallLint.Fix.Import
import CallLint.Fix.Parens
import CallLint.Fix.Plan
import CallLint.Fixer.Basic
import CallLint.Fixer.Outcome
import CallLint.Glob.Depth
import CallLint.Glob.Match
import CallLint.Glob.Pattern
import CallLint.Json.Basic
import CallLint.Json.Format
import CallLint.Json.Number
import CallLint.Json.Reader
import CallLint.Json.Token
import CallLint.Location
import CallLint.Main
import CallLint.Matcher
import CallLint.NodeKind
import CallLint.Outline
import CallLint.Output.Json
import CallLint.Output.RuleText
import CallLint.Output.Style
import CallLint.Output.Text
import CallLint.Path
import CallLint.Proofs.Codec.Fields
import CallLint.Proofs.Codec.Lossless
import CallLint.Proofs.CommandLine.Asking
import CallLint.Proofs.CommandLine.Endings
import CallLint.Proofs.CommandLine.Keeping
import CallLint.Proofs.CommandLine.Loading
import CallLint.Proofs.CommandLine.Naming
import CallLint.Proofs.CommandLine.Written
import CallLint.Proofs.Config.Extending
import CallLint.Proofs.Config.Merging
import CallLint.Proofs.Config.Prevailing
import CallLint.Proofs.Config.RulesInForce
import CallLint.Proofs.Engine.Batching
import CallLint.Proofs.Engine.Checking
import CallLint.Proofs.Engine.Evaluation
import CallLint.Proofs.Engine.LoneCall
import CallLint.Proofs.Engine.Vetting
import CallLint.Proofs.FileSystem.Writing
import CallLint.Proofs.Fix.Fitting
import CallLint.Proofs.Fix.ImportLines
import CallLint.Proofs.Fix.ImportPlace
import CallLint.Proofs.Fix.Importing
import CallLint.Proofs.Fix.Merging
import CallLint.Proofs.Fix.Overlapping
import CallLint.Proofs.Fix.PresentImports
import CallLint.Proofs.Fix.Reading
import CallLint.Proofs.Fix.Refusing
import CallLint.Proofs.Fix.Regrouping
import CallLint.Proofs.Fix.Rewriting
import CallLint.Proofs.Fix.Sequencing
import CallLint.Proofs.Fix.Weaving
import CallLint.Proofs.Fix.Wrapping
import CallLint.Proofs.Fix.WrappingImports
import CallLint.Proofs.Fixer.Accounting
import CallLint.Proofs.Fixer.Allowance
import CallLint.Proofs.Fixer.Arrival
import CallLint.Proofs.Fixer.Differences
import CallLint.Proofs.Fixer.Gathering
import CallLint.Proofs.Fixer.Greedy
import CallLint.Proofs.Fixer.Growing
import CallLint.Proofs.Fixer.MergedSafety
import CallLint.Proofs.Fixer.Origins
import CallLint.Proofs.Fixer.PerFile
import CallLint.Proofs.Fixer.Previewing
import CallLint.Proofs.Locating
import CallLint.Proofs.Matching
import CallLint.Proofs.NameGrammar
import CallLint.Proofs.Output.Sections
import CallLint.Proofs.Output.Underlining
import CallLint.Proofs.Passes
import CallLint.Proofs.Ranking
import CallLint.Proofs.Report.Counting
import CallLint.Proofs.Report.Means
import CallLint.Proofs.Report.Merging
import CallLint.Proofs.Report.Timing
import CallLint.Proofs.Rounding.Examining
import CallLint.Proofs.Rounding.Findings
import CallLint.Proofs.Rounding.HelperNames
import CallLint.Proofs.Rounding.Narrowing
import CallLint.Proofs.Rounding.Removal
import CallLint.Proofs.Rounding.Replacing
import CallLint.Proofs.Rounding.SafeFixes
import CallLint.Proofs.Rounding.Selection
import CallLint.Proofs.Sorted.Grouping
import CallLint.Proofs.Sorted.Increasing
import CallLint.Proofs.Sorted.Map
import CallLint.Proofs.Sorted.Set
import CallLint.Proofs.Text.Blank
import CallLint.Proofs.Text.Bytes
import CallLint.Proofs.Text.Line
import CallLint.Proofs.Text.LineAround
import CallLint.Proofs.Traversal
import CallLint.Proofs.Walking
import CallLint.QualifiedName
import CallLint.Record
import CallLint.Report.Batch
import CallLint.Report.Timing
import CallLint.RoundRule
import CallLint.Rule
import CallLint.RuleError
import CallLint.Severity
import CallLint.Sorted.Map
import CallLint.Sorted.Placing
import CallLint.Sorted.Set
import CallLint.SourceUnit
import CallLint.Span
import CallLint.Text.Blank
import CallLint.Text.Line
import CallLint.Text.Offset
import CallLint.Text.Pad
import CallLint.TypeRef
import CallLint.Yaml.Cursor
import CallLint.Yaml.Format
import CallLint.Yaml.Node
import CallLint.Yaml.Scalar
import CallLint.Yaml.Tag
import CallLint.Yaml.Token
import CallLint.Yaml.View
