import Gradual.Calls.Graph
import Gradual.Calls.Signatures
import Gradual.Calls.Site
import Gradual.Checker
import Gradual.Command.Config
import Gradual.Command.Options
import Gradual.Command.Report
import Gradual.Command.Run
import Gradual.Command.Settings
import Gradual.Decimal.Fixed
import Gradual.Decimal.Natural
import Gradual.Diagnostic
import Gradual.Files.Access
import Gradual.Files.Path
import Gradual.Files.Tree
import Gradual.Flow.State
import Gradual.Flow.Walk
import Gradual.Graph.Build
import Gradual.Graph.Dependency
import Gradual.Graph.Order
import Gradual.Graph.Summary
import Gradual.Json.Document
import Gradual.Json.Reader
import Gradual.Json.Value
import Gradual.Main
import Gradual.Numeral
import Gradual.Ranking
import Gradual.Ranking.Merge
import Gradual.Ranking.Search
import Gradual.Syntax.Expr
import Gradual.Syntax.Fault
import Gradual.Syntax.Keyword
import Gradual.Syntax.Lexer
import Gradual.Syntax.Parser.Basic
import Gradual.Syntax.Parser.Expr
import Gradual.Syntax.Parser.Stmt
import Gradual.Syntax.Stmt
import Gradual.Syntax.Token
import Gradual.Table
import Gradual.Table.KeyOrder
import Gradual.Text.Basic
import Gradual.Text.Case
import Gradual.Text.Letter
import Gradual.Text.Lower
import Gradual.Text.Utf8
import Gradual.Types.Builtin
import Gradual.Types.Format
import Gradual.Types.Inference
import Gradual.Types.Narrowing
import Gradual.Types.Resolution
import Gradual.Types.Signature
import Gradual.Types.Union
import Gradual.Types.Weight
import Gradual.Proofs.Syntax.Stream
import Gradual.Proofs.Syntax.Grammar
import Gradual.Proofs.Syntax.Expressible
import Gradual.Proofs.Syntax.Lexed
import Gradual.Proofs.Syntax.Printer
import Gradual.Proofs.Syntax.Reading
import Gradual.Proofs.Syntax.RoundTrip
import Gradual.Proofs.Syntax.Nodes
import Gradual.Proofs.Graph.Order
import Gradual.Proofs.Graph.Built
import Gradual.Proofs.Graph.Cycles
import Gradual.Proofs.Keys
import Gradual.Proofs.Graph.Drawn
import Gradual.Proofs.Syntax.Parts
import Gradual.Proofs.Calls.Agree
import Gradual.Proofs.Calls.Declared
import Gradual.Proofs.Calls.Readings
import Gradual.Proofs.Calls.Named
import Gradual.Proofs.Calls.Compared
import Gradual.Proofs.Flow.States
import Gradual.Proofs.Flow.Variables
import Gradual.Proofs.Check.Calls
import Gradual.Proofs.Check.Undeclared
import Gradual.Proofs.Calls.Independence
import Gradual.Proofs.Check.Names
import Gradual.Proofs.Syntax.Scanning
import Gradual.Proofs.Syntax.Layout
import Gradual.Proofs.Syntax.Relocated
import Gradual.Proofs.Syntax.Outcome
import Gradual.Proofs.Syntax.Runs
import Gradual.Proofs.Syntax.Soundness
import Gradual.Proofs.Syntax.TwoRuns
import Gradual.Proofs.Syntax.Concatenation
import Gradual.Proofs.Syntax.Respelling
import Gradual.Proofs.Ranking
import Gradual.Proofs.Types.Members
import Gradual.Proofs.Check.Grounded
import Gradual.Proofs.Calls.Callers
import Gradual.Proofs.Graph.Stored
import Gradual.Proofs.Beside
import Gradual.Proofs.Types.Comparison
import Gradual.Proofs.Types.Sameness
import Gradual.Proofs.Flow.Alongside
import Gradual.Proofs.Flow.Renaming
import Gradual.Proofs.Flow.Isolation
import Gradual.Proofs.Types.Dimmed
import Gradual.Proofs.Calls.Alongside
import Gradual.Proofs.Check.Guarantee
import Gradual.Proofs.Graph.Search
import Gradual.Proofs.Graph.Paths
import Gradual.Proofs.Graph.Sorted
import Gradual.Proofs.Calls.Reach
import Gradual.Proofs.Calls.Respelled
import Gradual.Proofs.Check.Chains
import Gradual.Proofs.Types.Ordered
import Gradual.Proofs.Types.Exact
import Gradual.Proofs.Types.Distribution
import Gradual.Proofs.Types.Permuted
import Gradual.Proofs.Syntax.Literals
import Gradual.Proofs.Syntax.Respaced
import Gradual.Proofs.Types.Pointwise
import Gradual.Proofs.Delimited
import Gradual.Proofs.Types.Structure
import Gradual.Proofs.Syntax.Unreadable
import Gradual.Proofs.Syntax.Lookahead
import Gradual.Proofs.Flow.Complement
import Gradual.Proofs.Graph.Scopes
import Gradual.Proofs.Command.CommandLine
import Gradual.Proofs.Listing
import Gradual.Proofs.Command.Validation
import Gradual.Proofs.Syntax.Progress
