import ProcessCompiler.Command.Arguments
import ProcessCompiler.Command.Files
import ProcessCompiler.Command.Report
import ProcessCompiler.Command.Run
import ProcessCompiler.Decimal.Double
import ProcessCompiler.Decimal.Shortest
import ProcessCompiler.Diagram
import ProcessCompiler.Diagram.Reading
import ProcessCompiler.Grammar.Attributes
import ProcessCompiler.Grammar.Expression
import ProcessCompiler.Grammar.Fault
import ProcessCompiler.Grammar.Generics
import ProcessCompiler.Grammar.Item
import ProcessCompiler.Grammar.Parse
import ProcessCompiler.Grammar.Path
import ProcessCompiler.Grammar.Pattern
import ProcessCompiler.Grammar.Scan
import ProcessCompiler.Grammar.Scan.Gap
import ProcessCompiler.Grammar.Scan.Number
import ProcessCompiler.Grammar.Scan.Quoted
import ProcessCompiler.Grammar.Statement
import ProcessCompiler.Grammar.Token
import ProcessCompiler.Grammar.Tree
import ProcessCompiler.Grammar.Type
import ProcessCompiler.Graph.Basic
import ProcessCompiler.Graph.Codec
import ProcessCompiler.Graph.Node
import ProcessCompiler.Graph.Resolution
import ProcessCompiler.Index
import ProcessCompiler.Json.Cursor
import ProcessCompiler.Json.Fault
import ProcessCompiler.Json.Number
import ProcessCompiler.Json.OfValue
import ProcessCompiler.Json.Record
import ProcessCompiler.Json.Scalar
import ProcessCompiler.Json.Skip
import ProcessCompiler.Json.Value
import ProcessCompiler.Main
import ProcessCompiler.Markup.Attribute
import ProcessCompiler.Markup.Content
import ProcessCompiler.Markup.Entity
import ProcessCompiler.Markup.Fault
import ProcessCompiler.Markup.Namespace
import ProcessCompiler.Markup.Outlook
import ProcessCompiler.Markup.Piece
import ProcessCompiler.Markup.Record
import ProcessCompiler.Markup.Run
import ProcessCompiler.Notice
import ProcessCompiler.Program.Basic
import ProcessCompiler.Program.Config
import ProcessCompiler.Program.Emission
import ProcessCompiler.Program.Layout
import ProcessCompiler.Program.Lowering
import ProcessCompiler.Program.Names
import ProcessCompiler.Proofs.Graph.Registry
import ProcessCompiler.Proofs.Graph.Faults
import ProcessCompiler.Proofs.Graph.Scanning
import ProcessCompiler.Proofs.Graph.Strictness
import ProcessCompiler.Settings.Basic
import ProcessCompiler.Settings.Codec
import ProcessCompiler.Snippet.Harness
import ProcessCompiler.Snippet.Invocation
import ProcessCompiler.Snippet.Modules
import ProcessCompiler.Text.Chars
import ProcessCompiler.Text.HiddenRanges
import ProcessCompiler.Text.Quoted
import ProcessCompiler.Text.Trim
import ProcessCompiler.Text.WordRanges
import ProcessCompiler.Validation.Basic
import ProcessCompiler.Validation.Codec
import ProcessCompiler.Validation.Tag
import ProcessCompiler.Proofs.Program.NameTable
import ProcessCompiler.Proofs.Program.Walk
import ProcessCompiler.Proofs.Grammar.Agreement
import ProcessCompiler.Proofs.Grammar.PatternAgreement
import ProcessCompiler.Proofs.Grammar.ExpressionAgreement
import ProcessCompiler.Proofs.Grammar.ItemAgreement
import ProcessCompiler.Proofs.Grammar.Depth
import ProcessCompiler.Proofs.Grammar.Sequence
import ProcessCompiler.Proofs.Grammar.Reading
import ProcessCompiler.Proofs.Grammar.EnoughDepth
import ProcessCompiler.Proofs.Grammar.Division
import ProcessCompiler.Proofs.Snippet.Ending
import ProcessCompiler.Proofs.Snippet.Stripping
import ProcessCompiler.Proofs.Scan.Border
import ProcessCompiler.Proofs.Scan.Literal
import ProcessCompiler.Proofs.Scan.Step
import ProcessCompiler.Proofs.Scan.Progress
import ProcessCompiler.Proofs.Scan.Compose
import ProcessCompiler.Proofs.Scan.Nesting
import ProcessCompiler.Proofs.Scan.Closing
import ProcessCompiler.Proofs.Scan.Truncation
import ProcessCompiler.Proofs.Scan.Spelling
import ProcessCompiler.Proofs.Snippet.Enclosure
import ProcessCompiler.Proofs.Snippet.Statements
import ProcessCompiler.Proofs.Snippet.Splitting
import ProcessCompiler.Proofs.Program.Phrases
import ProcessCompiler.Proofs.Program.Awaiting
import ProcessCompiler.Proofs.Program.TaskBody
import ProcessCompiler.Proofs.Validation.Rules
import ProcessCompiler.Proofs.Program.CheckedLowering
import ProcessCompiler.Proofs.Program.UncheckedEmission
import ProcessCompiler.Proofs.Program.References
import ProcessCompiler.Proofs.Graph.DefaultFlows
import ProcessCompiler.Proofs.Program.Hygiene
import ProcessCompiler.Proofs.Command.Accord
import ProcessCompiler.Proofs.Program.Shifting
import ProcessCompiler.Proofs.Scan.Meaning
import ProcessCompiler.Proofs.Scan.ShiftedRawStrings
import ProcessCompiler.Proofs.Scan.ShiftedGaps
import ProcessCompiler.Proofs.Scan.ShiftedLiterals
import ProcessCompiler.Proofs.Scan.ShiftedSteps
import ProcessCompiler.Proofs.Program.Indentation
import ProcessCompiler.Proofs.Validation.Outline
import ProcessCompiler.Proofs.Reordered
import ProcessCompiler.Proofs.Graph.Reordering
import ProcessCompiler.Proofs.Json.Taking
import ProcessCompiler.Proofs.Json.Codecs
import ProcessCompiler.Proofs.Markup.Encoding
import ProcessCompiler.Proofs.Markup.Tag
import ProcessCompiler.Proofs.Markup.Tree
import ProcessCompiler.Proofs.Markup.Reading
import ProcessCompiler.Proofs.Diagram.Writing
import ProcessCompiler.Proofs.Diagram.RecordReading
import ProcessCompiler.Proofs.Diagram.RoundTrip
import ProcessCompiler.Proofs.Snippet.Lines
import ProcessCompiler.Proofs.Program.Placeholder
import ProcessCompiler.Proofs.Program.Embedding
import ProcessCompiler.Proofs.Program.ScriptBody
import ProcessCompiler.Proofs.Graph.DefaultTargets
import ProcessCompiler.Proofs.Program.Growth
import ProcessCompiler.Proofs.Grammar.Climbing
import ProcessCompiler.Proofs.Grammar.Operand
import ProcessCompiler.Proofs.Grammar.EarlyExpression
import ProcessCompiler.Proofs.Grammar.MacroCall
import ProcessCompiler.Proofs.Grammar.ExpressionStatement
import ProcessCompiler.Proofs.Grammar.LastStatement
import ProcessCompiler.Proofs.Grammar.Letting
import ProcessCompiler.Proofs.Grammar.ItemStart
import ProcessCompiler.Proofs.Grammar.StatementStart
import ProcessCompiler.Proofs.Snippet.LastStatement
import ProcessCompiler.Proofs.Program.Listing
import ProcessCompiler.Proofs.Program.Quoting
import ProcessCompiler.Proofs.Program.Imports
import ProcessCompiler.Proofs.Scan.Words
import ProcessCompiler.Proofs.Grammar.Naming
import ProcessCompiler.Proofs.Snippet.ModuleNames
import ProcessCompiler.Proofs.Loop
import ProcessCompiler.Proofs.Program.NameSearch
import ProcessCompiler.Proofs.Program.LegalNames
import ProcessCompiler.Proofs.Grammar.Stopping
import ProcessCompiler.Proofs.Program.AcceptedBodies
