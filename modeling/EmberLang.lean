import EmberLang.Case
import EmberLang.Case.Pattern
import EmberLang.CommandLine
import EmberLang.CommandLine.Arguments
import EmberLang.CommandLine.Workspace
import EmberLang.Constructor
import EmberLang.Decimal.Binary
import EmberLang.Decimal.Numeral
import EmberLang.Decimal.Real
import EmberLang.Decimal.Shortest
import EmberLang.Error
import EmberLang.Eval
import EmberLang.Host
import EmberLang.Host.Console
import EmberLang.Host.Result
import EmberLang.Host.Stock
import EmberLang.Interpreter
import EmberLang.Intrinsic
import EmberLang.Intrinsic.Extra
import EmberLang.Intrinsic.Standard
import EmberLang.Journal
import EmberLang.Json
import EmberLang.Json.Coerce
import EmberLang.Json.Parser
import EmberLang.Json.Printer
import EmberLang.Literal
import EmberLang.Message
import EmberLang.Name
import EmberLang.Position
import EmberLang.Scope.Workbench
import EmberLang.Text.Blank
import EmberLang.Text.DecimalDigit
import EmberLang.Text.Newline
import EmberLang.Text.Printable
import EmberLang.Text.Quoted
import EmberLang.Token
import EmberLang.Token.Scanner
import EmberLang.Tree
import EmberLang.Tree.Declarations
import EmberLang.Tree.Parser
import EmberLang.Tree.Printer
import EmberLang.Tree.Resolve
import EmberLang.Tree.Saved
import EmberLang.Tree.Shown
import EmberLang.Tree.Walk
import EmberLang.TypeSpec
import EmberLang.Value
import EmberLang.Value.Printer
import EmberLang.Value.Tag
import EmberLang.Main
import EmberLang.Proofs.Dispatch
import EmberLang.Proofs.Discipline
import EmberLang.Proofs.KeptRuns
import EmberLang.Proofs.LexicalScope
import EmberLang.Proofs.Positions
import EmberLang.Proofs.Scanning
import EmberLang.Proofs.WellFormed
import EmberLang.Proofs.Spelling
import EmberLang.Proofs.Printing
import EmberLang.Proofs.Literals
import EmberLang.Proofs.Nesting
import EmberLang.Proofs.Reading
import EmberLang.Proofs.Parsing
import EmberLang.Proofs.Outline
import EmberLang.Proofs.Proper
import EmberLang.Proofs.RoundTrip
import EmberLang.Proofs.Accepted
import EmberLang.Proofs.PositionFree
import EmberLang.Proofs.Agreement
import EmberLang.Proofs.AlikeRuns
import EmberLang.Proofs.AlikeLoading
import EmberLang.Proofs.Reprinting
import EmberLang.Proofs.Packing
import EmberLang.Proofs.ReadingReals
import EmberLang.Proofs.ShortestDecimal
import EmberLang.Proofs.Moments
import EmberLang.Proofs.Arities
import EmberLang.Proofs.CheckedCode
import EmberLang.Proofs.Faces
import EmberLang.Proofs.Simulation
import EmberLang.Proofs.Clashes
import EmberLang.Proofs.Reordering
import EmberLang.Proofs.ReorderedRuns
import EmberLang.Proofs.Grammar
import EmberLang.Proofs.ParsingComplete
import EmberLang.Proofs.ParsingSound
import EmberLang.Proofs.SavedTrees
import EmberLang.Proofs.Operations
import EmberLang.Proofs.History
import EmberLang.Proofs.Natives
import EmberLang.Proofs.Parallel
import EmberLang.Proofs.Parting
import EmberLang.Proofs.DepthLimit
import EmberLang.Proofs.Transparency
import EmberLang.Proofs.FreeNames
import EmberLang.Proofs.Independence
import EmberLang.Proofs.Rejections
import EmberLang.Proofs.SavedRuns
import EmberLang.Proofs.Patterns
import EmberLang.Proofs.Instances
import EmberLang.Proofs.LiteralCases
import EmberLang.Proofs.ValidPrograms
import EmberLang.Proofs.Layout
import EmberLang.Proofs.ConstructorNames
import EmberLang.Proofs.ClashFree
import EmberLang.Proofs.LexicalRules
import EmberLang.Proofs.Viable
import EmberLang.Proofs.FirstFault
import EmberLang.Proofs.OwnCalls
import EmberLang.Proofs.ConstructorIndex
import EmberLang.Proofs.LexemesDecide
import EmberLang.Proofs.Spacing
import EmberLang.Proofs.ValueText
import EmberLang.Proofs.PrintedValues
import EmberLang.Proofs.Division
import EmberLang.Proofs.Traversal
import EmberLang.Proofs.Replacement
import EmberLang.Proofs.Transcript
