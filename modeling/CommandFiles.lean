import CommandFiles.Action
import CommandFiles.Action.Interpreter
import CommandFiles.Cache
import CommandFiles.Command
import CommandFiles.Command.Naming
import CommandFiles.Command.Plain
import CommandFiles.Command.Tree
import CommandFiles.CommandLine.Interface
import CommandFiles.CommandLine.Invocation
import CommandFiles.CommandLine.Match
import CommandFiles.CommandLine.Reserved
import CommandFiles.Config
import CommandFiles.Config.Document
import CommandFiles.Config.Load
import CommandFiles.Context
import CommandFiles.Discovery
import CommandFiles.Discovery.Search
import CommandFiles.FileSystem
import CommandFiles.FileSystem.Entry
import CommandFiles.FileSystem.OsError
import CommandFiles.Glob
import CommandFiles.Json
import CommandFiles.Json.Reader
import CommandFiles.Json.Shape
import CommandFiles.Literal.Evaluate
import CommandFiles.Literal.Extract
import CommandFiles.Literal.Fault
import CommandFiles.Literal.Fragment
import CommandFiles.Literal.Source
import CommandFiles.Logged
import CommandFiles.Main
import CommandFiles.Number.Binary
import CommandFiles.Number.Decimal
import CommandFiles.Number.Shortest
import CommandFiles.Path.File
import CommandFiles.Path.Lexical
import CommandFiles.Program
import CommandFiles.Proofs.ActionGate
import CommandFiles.Proofs.AddedGlobals
import CommandFiles.Proofs.BareSyntax
import CommandFiles.Proofs.BindingText
import CommandFiles.Proofs.CacheRoundTrip
import CommandFiles.Proofs.ChainEnds
import CommandFiles.Proofs.ChainText
import CommandFiles.Proofs.ClearedArguments
import CommandFiles.Proofs.CommandData
import CommandFiles.Proofs.CommandRoute
import CommandFiles.Proofs.ConstantText
import CommandFiles.Proofs.DataInOrder
import CommandFiles.Proofs.DataRoundTrip
import CommandFiles.Proofs.DataText
import CommandFiles.Proofs.DeclaredShorts
import CommandFiles.Proofs.DiscoveryFaults
import CommandFiles.Proofs.DiscoveryRun
import CommandFiles.Proofs.ElementText
import CommandFiles.Proofs.ExpressionTriples
import CommandFiles.Proofs.FailedScaffolds
import CommandFiles.Proofs.FilesKept
import CommandFiles.Proofs.FlagSteps
import CommandFiles.Proofs.FoldedIndexes
import CommandFiles.Proofs.FoundFiles
import CommandFiles.Proofs.FunctionText
import CommandFiles.Proofs.GivenFlags
import CommandFiles.Proofs.GlobalFlags
import CommandFiles.Proofs.GroundedPaths
import CommandFiles.Proofs.HelpWhenEmpty
import CommandFiles.Proofs.HookOutput
import CommandFiles.Proofs.InsertionHistories
import CommandFiles.Proofs.InterfaceBuild
import CommandFiles.Proofs.InterfaceNames
import CommandFiles.Proofs.InvocationLevels
import CommandFiles.Proofs.LinkText
import CommandFiles.Proofs.ListText
import CommandFiles.Proofs.ListedFlags
import CommandFiles.Proofs.LiteralFaults
import CommandFiles.Proofs.LiteralText
import CommandFiles.Proofs.LoadedCommands
import CommandFiles.Proofs.MadeDirectories
import CommandFiles.Proofs.MadeFiles
import CommandFiles.Proofs.MarkedDocuments
import CommandFiles.Proofs.MatchRun
import CommandFiles.Proofs.MissingArguments
import CommandFiles.Proofs.ModuleText
import CommandFiles.Proofs.ModuleTriples
import CommandFiles.Proofs.NormalPaths
import CommandFiles.Proofs.ObjectMembers
import CommandFiles.Proofs.ObjectUnion
import CommandFiles.Proofs.OperandText
import CommandFiles.Proofs.OperatorText
import CommandFiles.Proofs.OptionArguments
import CommandFiles.Proofs.OptionalChains
import CommandFiles.Proofs.PathNames
import CommandFiles.Proofs.PathText
import CommandFiles.Proofs.PathWalks
import CommandFiles.Proofs.PieceText
import CommandFiles.Proofs.PlantedFiles
import CommandFiles.Proofs.PosixPaths
import CommandFiles.Proofs.PrintedLiterals
import CommandFiles.Proofs.PropertyText
import CommandFiles.Proofs.ReadCommands
import CommandFiles.Proofs.ReaderRun
import CommandFiles.Proofs.ReaderTriples
import CommandFiles.Proofs.RecoveredLiterals
import CommandFiles.Proofs.RecoveredText
import CommandFiles.Proofs.RepeatedOptions
import CommandFiles.Proofs.ScaffoldDiscovery
import CommandFiles.Proofs.SearchOrder
import CommandFiles.Proofs.SearchedFiles
import CommandFiles.Proofs.SeededCommands
import CommandFiles.Proofs.SeededText
import CommandFiles.Proofs.ShieldedArguments
import CommandFiles.Proofs.SoftFaults
import CommandFiles.Proofs.SparedFiles
import CommandFiles.Proofs.SplitPaths
import CommandFiles.Proofs.SuppliedArguments
import CommandFiles.Proofs.SuppliedOptions
import CommandFiles.Proofs.TemplateText
import CommandFiles.Proofs.TokenText
import CommandFiles.Proofs.TreeAddresses
import CommandFiles.Proofs.TreeAssembly
import CommandFiles.Proofs.TreeMirror
import CommandFiles.Proofs.TreeOrigins
import CommandFiles.Proofs.TreeSteps
import CommandFiles.Proofs.ValueText
import CommandFiles.Proofs.VisitedNodes
import CommandFiles.Proofs.WholeDoubles
import CommandFiles.Proofs.WrittenFiles
import CommandFiles.Record
import CommandFiles.Report.Failure
import CommandFiles.Report.Help
import CommandFiles.Report.Listing
import CommandFiles.Scaffold
import CommandFiles.Script.Expr
import CommandFiles.Script.Outline
import CommandFiles.Script.Reader
import CommandFiles.Script.Reader.Expression
import CommandFiles.Script.Reader.Function
import CommandFiles.Script.Reader.Markup
import CommandFiles.Script.Reader.Module
import CommandFiles.Script.Reader.Statement
import CommandFiles.Script.Reader.Type
import CommandFiles.Script.Token
import CommandFiles.Script.Token.Scan
import CommandFiles.Script.Walk
import CommandFiles.Text.CharacterRanges
import CommandFiles.Text.LetterCase
import CommandFiles.Text.MarkRanges
import CommandFiles.Text.Quoted
import CommandFiles.Text.Sorted
import CommandFiles.Text.Words
import CommandFiles.Toml
import CommandFiles.Toml.Printer
import CommandFiles.Toml.Reader
import CommandFiles.Value
import CommandFiles.Value.Plain
import CommandFiles.Value.Source
import CommandFiles.Vocabulary
