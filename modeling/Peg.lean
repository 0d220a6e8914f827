import Peg.Attribute.Compose
import Peg.Attribute.Convert
import Peg.Attribute.Declaration
import Peg.Attribute.Declared
import Peg.Attribute.Display
import Peg.Attribute.Merge
import Peg.Attribute.Ty
import Peg.Attribute.TyName
import Peg.Attribute.Value
import Peg.Calculator.Basic
import Peg.Calculator.CommandLine
import Peg.Calculator.Rules
import Peg.Context.Chain
import Peg.Decimal.Binary
import Peg.Decimal.Shortest
import Peg.Diagnostic.Diagnostic
import Peg.Diagnostic.Failure
import Peg.Diagnostic.Report
import Peg.Diagnostic.Terminal
import Peg.Entry
import Peg.Gallery
import Peg.Gallery.Basic
import Peg.Gallery.Directives
import Peg.Gallery.Names
import Peg.Gallery.Operators
import Peg.Gallery.Rules
import Peg.Gallery.Slots
import Peg.Grammar.Action
import Peg.Grammar.Basic
import Peg.Grammar.Command
import Peg.Grammar.Describe
import Peg.Grammar.Inspect
import Peg.Grammar.Notation
import Peg.Main
import Peg.Parse.Node
import Peg.Parse.Run
import Peg.Parse.State
import Peg.Terminal.Basic
import Peg.Terminal.CharTest
import Peg.Terminal.Integer
import Peg.Terminal.IntegerName
import Peg.Terminal.Literal
import Peg.Terminal.Real
import Peg.Terminal.Symbols
import Peg.Text.Blank
import Peg.Text.Case
import Peg.Text.CaseTable
import Peg.Text.Cursor
import Peg.Text.Lines
import Peg.Text.PrintTable
import Peg.Text.Quoted
import Peg.Text.Span
import Peg.Proofs.Postcondition
import Peg.Proofs.Rollback
import Peg.Proofs.Approximation
import Peg.Proofs.Boundary
import Peg.Proofs.CursorSafety
import Peg.Proofs.Nodes
import Peg.Proofs.Progress
import Peg.Proofs.Termination
import Peg.Proofs.HardCommit
import Peg.Proofs.Tracking
import Peg.Proofs.RuleResolution
import Peg.Proofs.CalculatorSound
import Peg.Proofs.CalculatorComplete
import Peg.Proofs.Parallel
import Peg.Proofs.Regimes
import Peg.Proofs.Answers
import Peg.Proofs.Skipping
import Peg.Proofs.Locality
import Peg.Proofs.Expansions
import Peg.Proofs.SymbolSearch
import Peg.Proofs.CaseFolding
import Peg.Proofs.CaseBlindness
import Peg.Proofs.Scoping
import Peg.Proofs.ValueOrder
import Peg.Proofs.SortedItems
import Peg.Proofs.Contents
import Peg.Proofs.Comparable
import Peg.Proofs.Conversions
import Peg.Proofs.MergeTotal
import Peg.Proofs.FreshMerge
import Peg.Proofs.ContainerMerge
import Peg.Proofs.SymbolTable
import Peg.Proofs.Bindings
import Peg.Proofs.Course
import Peg.Proofs.FurthestFailure
import Peg.Proofs.Isolation
import Peg.Proofs.LinePositions
import Peg.Proofs.LineSplit
import Peg.Proofs.LongestMatch
import Peg.Proofs.Literals
import Peg.Proofs.Repetition
import Peg.Proofs.ExactIntegers
import Peg.Proofs.LongestNumeral
import Peg.Proofs.SignedNames
import Peg.Proofs.ExactSpelling
import Peg.Proofs.SingleCharacters
import Peg.Proofs.Underline
import Peg.Proofs.ConstantNames
import Peg.Proofs.CaretReports
import Peg.Proofs.EscapeSequences
import Peg.Proofs.Memoryless
import Peg.Proofs.LeftmostMatch
import Peg.Proofs.Idempotence
import Peg.Proofs.SequenceSlots
import Peg.Proofs.SetDefinitions
