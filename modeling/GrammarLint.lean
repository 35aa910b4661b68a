import GrammarLint.Check.Basic
import GrammarLint.Check.Convention
import GrammarLint.Check.Delimiters
import GrammarLint.Check.Header
import GrammarLint.Check.Indentation
import GrammarLint.Check.Spacing
import GrammarLint.Check.TokenNames
import GrammarLint.Check.TokenOrder
import GrammarLint.Cli.Arguments
import GrammarLint.Cli.Invocation
import GrammarLint.Cli.Log
import GrammarLint.Cli.Run
import GrammarLint.Config.Basic
import GrammarLint.Decimal.Shortest
import GrammarLint.Diagnostic
import GrammarLint.Document.Reader
import GrammarLint.Document.Value
import GrammarLint.Document.Writer
import GrammarLint.Fault
import GrammarLint.Files.FileSystem
import GrammarLint.Files.Glob
import GrammarLint.Files.Path
import GrammarLint.Files.Select
import GrammarLint.Grammar.Body
import GrammarLint.Grammar.Expr
import GrammarLint.Grammar.Match
import GrammarLint.Grammar.Pattern
import GrammarLint.Grammar.Rule
import GrammarLint.Grammar.Tree
import GrammarLint.Kind
import GrammarLint.KindTable
import GrammarLint.Main
import GrammarLint.Source.Assemble
import GrammarLint.Source.Basic
import GrammarLint.Source.Outline
import GrammarLint.Text.Blank
import GrammarLint.Text.Case
import GrammarLint.Text.CharClass
import GrammarLint.Text.Cursor
import GrammarLint.Text.Digit
import GrammarLint.Text.Hex
import GrammarLint.Text.Lines
import GrammarLint.Text.OffsetMap
import GrammarLint.Text.Position
import GrammarLint.Text.Printable
import GrammarLint.Text.Quoted
import GrammarLint.Text.Utf8
import GrammarLint.Text.Word
import GrammarLint.Token
import GrammarLint.Tree.Dump
import GrammarLint.Tree.Node
import GrammarLint.Walker.Basic
import GrammarLint.Walker.Process
import GrammarLint.Walker.Setup
import GrammarLint.Walker.Walk
import GrammarLint.Proofs.Derivation
import GrammarLint.Proofs.Evaluation
import GrammarLint.Proofs.Positions
import GrammarLint.Proofs.Outline
import GrammarLint.Proofs.Tokenisation
import GrammarLint.Proofs.Assembly
import GrammarLint.Proofs.Reading
import GrammarLint.Proofs.Composition
import GrammarLint.Proofs.Shape
import GrammarLint.Proofs.Leaves
import GrammarLint.Proofs.Places
import GrammarLint.Proofs.FirstCharacters
import GrammarLint.Proofs.Lexemes
import GrammarLint.Proofs.Forward
import GrammarLint.Proofs.Layout
import GrammarLint.Proofs.Blocks
import GrammarLint.Proofs.Branches
import GrammarLint.Proofs.Printed
import GrammarLint.Proofs.Setup
import GrammarLint.Proofs.Silence
import GrammarLint.Proofs.Clean
import GrammarLint.Proofs.Traversal
import GrammarLint.Proofs.Registration
import GrammarLint.Proofs.Rejection
import GrammarLint.Proofs.Checkable
import GrammarLint.Proofs.Faultless
import GrammarLint.Proofs.Sites
import GrammarLint.Proofs.Boundary
import GrammarLint.Proofs.Isolation
import GrammarLint.Proofs.Independence
import GrammarLint.Proofs.Arrangement
import GrammarLint.Proofs.Checking
import GrammarLint.Proofs.Embedded
import GrammarLint.Proofs.Parallel
import GrammarLint.Proofs.Returns
import GrammarLint.Proofs.Spelling
import GrammarLint.Proofs.Termination
import GrammarLint.Proofs.Terminals
import GrammarLint.Proofs.Views
import GrammarLint.Proofs.LineBreaks
import GrammarLint.Proofs.BreakStyle
import GrammarLint.Proofs.Fronts
import GrammarLint.Proofs.Retelling
import GrammarLint.Proofs.Brackets
import GrammarLint.Proofs.TextFiles
import GrammarLint.Proofs.SetupFaults
import GrammarLint.Proofs.DiagnosticLines
import GrammarLint.Proofs.Continuations
import GrammarLint.Proofs.LinedUp
import GrammarLint.Proofs.WholeFiles
import GrammarLint.Proofs.Respacing
import GrammarLint.Proofs.Appending
import GrammarLint.Proofs.Breaches
import GrammarLint.Proofs.LinePlaces
import GrammarLint.Proofs.TokenPlaces
import GrammarLint.Proofs.Notices
import GrammarLint.Proofs.PastedNotices
import GrammarLint.Proofs.OwnLines
import GrammarLint.Proofs.SiblingOrder
import GrammarLint.Proofs.EntryBlocks
import GrammarLint.Proofs.EntryVerdicts
import GrammarLint.Proofs.CutTexts
import GrammarLint.Proofs.FailurePlaces
import GrammarLint.Proofs.ErrorPlaces
import GrammarLint.Proofs.DumpedWords
import GrammarLint.Proofs.SexpDump
import GrammarLint.Proofs.IndentedDump
import GrammarLint.Proofs.Offsets
import GrammarLint.Proofs.KindSpelling
